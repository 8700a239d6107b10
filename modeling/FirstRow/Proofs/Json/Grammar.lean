import FirstRow.Json.Writer
import FirstRow.Proofs.Decimal.Digits

/-!
# The JSON grammar

The grammar of RFC 8259, over characters. White space is a parameter: with `Blank` it is the grammar of the standard,
and with `NoSpace` the part of it without white space outside strings. A text of the smaller grammar is one of the
larger, and has no raw control character anywhere.
-/
namespace FirstRow.Json.Grammar

/-- White space: blanks, tabs and line ends. -/
def Blank (s : List Char) : Prop :=
  ∀ c ∈ s, c = ' ' ∨ c = '\t' ∨ c = '\n' ∨ c = '\r'

/-- No white space. -/
def NoSpace (s : List Char) : Prop :=
  s = []

/-- A character of the structure, with white space around it. -/
inductive Around (ws : List Char → Prop) (c : Char) : List Char → Prop where
  | intro {a b : List Char} : ws a → ws b → Around ws c (a ++ c :: b)

/-! ## Numbers -/

/-- One digit or more. -/
structure Digits (s : List Char) : Prop where
  ne_nil : s ≠ []
  all : ∀ c ∈ s, Decimal.isDigit c = true

/-- The digits before the point: no leading zeros. -/
inductive Whole : List Char → Prop where
  | zero : Whole ['0']
  | digits {s : List Char} : Digits s → s.head? ≠ some '0' → Whole s

/-- The point and the digits behind it, if any. -/
inductive Fraction : List Char → Prop where
  | none : Fraction []
  | digits {s : List Char} : Digits s → Fraction ('.' :: s)

/-- The exponent, if any. -/
inductive Power : List Char → Prop where
  | none : Power []
  | digits {e : Char} {sign s : List Char} : e = 'e' ∨ e = 'E' → sign = [] ∨ sign = ['+'] ∨ sign = ['-'] → Digits s →
      Power (e :: (sign ++ s))

/-- A number. -/
inductive Number : List Char → Prop where
  | intro {sign whole fraction power : List Char} : sign = [] ∨ sign = ['-'] → Whole whole → Fraction fraction →
      Power power → Number (sign ++ (whole ++ (fraction ++ power)))

/-! ## Strings -/

/-- A hexadecimal digit. -/
def IsHex (c : Char) : Prop :=
  '0' ≤ c ∧ c ≤ '9' ∨ 'a' ≤ c ∧ c ≤ 'f' ∨ 'A' ≤ c ∧ c ≤ 'F'

/-- A character of a string, as it stands or escaped. -/
inductive Character : List Char → Prop where
  | plain {c : Char} : 0x20 ≤ c.toNat → c ≠ '"' → c ≠ '\\' → Character [c]
  | escaped {c : Char} : c ∈ ['"', '\\', '/', 'b', 'f', 'n', 'r', 't'] → Character ['\\', c]
  | unit {a b c d : Char} : IsHex a → IsHex b → IsHex c → IsHex d → Character ['\\', 'u', a, b, c, d]

/-- The characters between the quotes of a string. -/
inductive Characters : List Char → Prop where
  | nil : Characters []
  | cons {a s : List Char} : Character a → Characters s → Characters (a ++ s)

/-- A string with its quotes. -/
inductive Quoted : List Char → Prop where
  | intro {s : List Char} : Characters s → Quoted ('"' :: s ++ ['"'])

/-! ## Values -/

mutual

/-- A value. -/
inductive Value (ws : List Char → Prop) : List Char → Prop where
  | null : Value ws ['n', 'u', 'l', 'l']
  | true : Value ws ['t', 'r', 'u', 'e']
  | false : Value ws ['f', 'a', 'l', 's', 'e']
  | number {s : List Char} : Number s → Value ws s
  | string {s : List Char} : Quoted s → Value ws s
  | emptyArray {a b : List Char} : Around ws '[' a → Around ws ']' b → Value ws (a ++ b)
  | array {a s b : List Char} : Around ws '[' a → Elements ws s → Around ws ']' b → Value ws (a ++ s ++ b)
  | emptyObject {a b : List Char} : Around ws '{' a → Around ws '}' b → Value ws (a ++ b)
  | object {a s b : List Char} : Around ws '{' a → Members ws s → Around ws '}' b → Value ws (a ++ s ++ b)

/-- The elements of an array, with commas between them. -/
inductive Elements (ws : List Char → Prop) : List Char → Prop where
  | one {s : List Char} : Value ws s → Elements ws s
  | more {s c t : List Char} : Value ws s → Around ws ',' c → Elements ws t → Elements ws (s ++ c ++ t)

/-- The members of an object, with commas between them. -/
inductive Members (ws : List Char → Prop) : List Char → Prop where
  | one {k c s : List Char} : Quoted k → Around ws ':' c → Value ws s → Members ws (k ++ c ++ s)
  | more {k c s d t : List Char} : Quoted k → Around ws ':' c → Value ws s → Around ws ',' d → Members ws t →
      Members ws (k ++ c ++ s ++ d ++ t)

end

/-- A value with white space around it. -/
inductive Document (ws : List Char → Prop) : List Char → Prop where
  | intro {a s b : List Char} : ws a → Value ws s → ws b → Document ws (a ++ s ++ b)

/-! ## Less white space -/

variable {ws ws' : List Char → Prop}

theorem Around.mono (h : ∀ s, ws s → ws' s) {c : Char} {s : List Char} : Around ws c s → Around ws' c s
  | .intro ha hb => .intro (h _ ha) (h _ hb)

mutual

theorem Value.mono (h : ∀ s, ws s → ws' s) {s : List Char} : Value ws s → Value ws' s
  | .null => .null
  | .true => .true
  | .false => .false
  | .number hn => .number hn
  | .string hs => .string hs
  | .emptyArray ha hb => .emptyArray (ha.mono h) (hb.mono h)
  | .array ha hs hb => .array (ha.mono h) (hs.mono h) (hb.mono h)
  | .emptyObject ha hb => .emptyObject (ha.mono h) (hb.mono h)
  | .object ha hs hb => .object (ha.mono h) (hs.mono h) (hb.mono h)

theorem Elements.mono (h : ∀ s, ws s → ws' s) {s : List Char} : Elements ws s → Elements ws' s
  | .one hv => .one (hv.mono h)
  | .more hv hc hs => .more (hv.mono h) (hc.mono h) (hs.mono h)

theorem Members.mono (h : ∀ s, ws s → ws' s) {s : List Char} : Members ws s → Members ws' s
  | .one hk hc hv => .one hk (hc.mono h) (hv.mono h)
  | .more hk hc hv hd hs => .more hk (hc.mono h) (hv.mono h) (hd.mono h) (hs.mono h)

end

/-- Where white space may stand, there may be none. -/
theorem Document.blank {s : List Char} : Document NoSpace s → Document Blank s
  | .intro ha hv hb =>
    have none (s : List Char) (h : NoSpace s) : Blank s := by
      rw [show s = [] from h]
      intro c hc
      cases hc
    .intro (none _ ha) (hv.mono none) (none _ hb)

/-! ## Control characters -/

/-- No character is a control character. -/
def Printable (s : List Char) : Prop :=
  ∀ c ∈ s, 0x20 ≤ c.toNat

@[simp] theorem printable_nil : Printable [] := by simp [Printable]

@[simp] theorem printable_cons {c : Char} {s : List Char} : Printable (c :: s) ↔ 0x20 ≤ c.toNat ∧ Printable s := by
  simp [Printable]

@[simp] theorem printable_append {s t : List Char} : Printable (s ++ t) ↔ Printable s ∧ Printable t := by
  simp [Printable, or_imp, forall_and]

theorem Around.printable {c : Char} (hc : 0x20 ≤ c.toNat) {s : List Char} : Around NoSpace c s → Printable s
  | .intro ha hb => by
    rw [show _ = [] from ha, show _ = [] from hb]
    simpa using hc

theorem Digits.printable {s : List Char} (h : Digits s) : Printable s := fun c hc => by
  have := (Decimal.isDigit_iff c).mp (h.all c hc)
  omega

theorem Number.printable {s : List Char} (h : Number s) : Printable s := by
  obtain ⟨hsign, hwhole, hfraction, hpower⟩ := h
  simp only [printable_append]
  refine ⟨?_, ?_, ?_, ?_⟩
  · rcases hsign with rfl | rfl <;> simp
  · cases hwhole with
    | zero => simp
    | digits hd _ => exact hd.printable
  · cases hfraction with
    | none => simp
    | digits hd => simpa using hd.printable
  · cases hpower with
    | none => simp
    | digits he hsign hd =>
      simp only [printable_cons, printable_append]
      refine ⟨?_, ?_, hd.printable⟩
      · rcases he with rfl | rfl <;> decide
      · rcases hsign with rfl | rfl | rfl <;> simp

theorem IsHex.ge {c : Char} (h : IsHex c) : 0x20 ≤ c.toNat := by
  simp only [IsHex, Char.le_def, UInt32.le_iff_toNat_le] at h
  rcases h with ⟨h, -⟩ | ⟨h, -⟩ | ⟨h, -⟩
  all_goals exact le_trans (by decide) h

theorem Quoted.printable {s : List Char} (h : Quoted s) : Printable s := by
  obtain ⟨hs⟩ := h
  simp only [printable_cons, printable_append, printable_nil, and_true]
  refine ⟨⟨by decide, ?_⟩, by decide⟩
  induction hs with
  | nil => simp
  | cons ha _ ih =>
    refine printable_append.mpr ⟨?_, ih⟩
    cases ha with
    | plain hc _ _ => simpa using hc
    | escaped hc =>
      simp only [List.mem_cons, List.not_mem_nil, or_false] at hc
      rcases hc with rfl | rfl | rfl | rfl | rfl | rfl | rfl | rfl <;> simp
    | unit ha hb hc hd => simp [ha.ge, hb.ge, hc.ge, hd.ge]

mutual

theorem Value.printable {s : List Char} : Value NoSpace s → Printable s
  | .null => by simp
  | .true => by simp
  | .false => by simp
  | .number hn => hn.printable
  | .string hs => hs.printable
  | .emptyArray ha hb => printable_append.mpr ⟨ha.printable (by decide), hb.printable (by decide)⟩
  | .array ha hs hb => by
    rw [printable_append, printable_append]
    exact ⟨⟨ha.printable (by decide), hs.printable⟩, hb.printable (by decide)⟩
  | .emptyObject ha hb => printable_append.mpr ⟨ha.printable (by decide), hb.printable (by decide)⟩
  | .object ha hs hb => by
    rw [printable_append, printable_append]
    exact ⟨⟨ha.printable (by decide), hs.printable⟩, hb.printable (by decide)⟩

theorem Elements.printable {s : List Char} : Elements NoSpace s → Printable s
  | .one hv => hv.printable
  | .more hv hc hs => by
    rw [printable_append, printable_append]
    exact ⟨⟨hv.printable, hc.printable (by decide)⟩, hs.printable⟩

theorem Members.printable {s : List Char} : Members NoSpace s → Printable s
  | .one hk hc hv => by
    rw [printable_append, printable_append]
    exact ⟨⟨hk.printable, hc.printable (by decide)⟩, hv.printable⟩
  | .more hk hc hv hd hs => by
    simp only [printable_append]
    exact ⟨⟨⟨⟨hk.printable, hc.printable (by decide)⟩, hv.printable⟩, hd.printable (by decide)⟩, hs.printable⟩

end

/-- Without white space there is no control character either: in strings they are escaped. -/
theorem Document.printable {s : List Char} : Document NoSpace s → Printable s
  | .intro ha hv hb => by
    rw [show _ = [] from ha, show _ = [] from hb]
    simpa using hv.printable

end FirstRow.Json.Grammar
