import FirstRow.Json.Inspection
import FirstRow.Proofs.Json.RoundTrip
import FirstRow.Proofs.Text.Quoted

/-!
# Inspections tell values apart

The text by which the log shows a value delimits itself: it is that of no other value, whatever follows. The kind stands
in front, numbers end at the parenthesis behind them, strings at the quote that closes them, and the items of arrays and
objects are delimited themselves. Numbers are told apart as they are in JSON text.
-/
namespace FirstRow.Json

open Text (Delimits)

/-! ## Numbers -/

/-- The characters with which numbers are written. -/
def InNumber (c : Char) : Prop :=
  Decimal.isDigit c = true ∨ c ∈ ['-', '+', '.', 'e']

theorem Numeral.inNumber_of_mem {n : Numeral} (h : n.WellFormed) {c : Char} (hc : c ∈ n.chars) : InNumber c := by
  simp only [chars, List.mem_append] at hc
  rcases hc with hsign | hwhole | hfraction | hpower
  · unfold signChars at hsign
    split at hsign
    · exact .inr (by simp_all)
    · cases hsign
  · exact .inl ((digits_of_whole h.whole).all c hwhole)
  · unfold fractionChars at hfraction
    split at hfraction
    · cases hfraction
    · rcases List.mem_cons.mp hfraction with rfl | hdigit
      · exact .inr (by simp)
      · exact .inl (h.fraction c hdigit)
  · cases hn : n.power with
    | none => simp [hn, powerChars] at hpower
    | some e =>
      simp only [hn, powerChars, List.mem_cons] at hpower
      rcases hpower with rfl | rfl | hdigit
      · exact .inr (by simp)
      · exact .inr (by split <;> simp)
      · exact .inl (Decimal.digits_all_isDigit e.natAbs c hdigit)

theorem inNumber_integer {n : Int} {c : Char} (hc : c ∈ Decimal.integer n) : InNumber c :=
  Numeral.inNumber_of_mem (Numeral.wellFormed_ofInt n) (Numeral.chars_ofInt n ▸ hc)

theorem inNumber_realText {x : Binary64.Finite} {c : Char} (hc : c ∈ realText x.val) : InNumber c := by
  obtain ⟨n, hchars, hn, -⟩ := exists_numeral_realText x
  exact Numeral.inNumber_of_mem hn (hchars ▸ hc)

/-- Values with the same JSON text are the same. -/
theorem chars_injective {v w : Json} (h : v.chars = w.chars) : v = w := by
  have htext : v.text = w.text := congrArg String.ofList h
  rw [← Option.some.injEq, ← read?_text, ← read?_text, htext]

/-! ## Lists -/

section

variable {α : Type} {write : α → List Char}

/-- Items with a comma and a blank between them. -/
def listed (write : α → List Char) : List α → List Char
  | [] => []
  | a :: rest => write a ++ rest.flatMap fun b => ',' :: ' ' :: write b

/-- Items that delimit themselves make a list that ends where it is closed. -/
theorem eq_of_listed_append {close : Char} (hclose : close ≠ ',')
    (hhead : ∀ a, ∃ c rest, write a = c :: rest ∧ c ≠ close) {as bs : List α} (has : ∀ a ∈ as, Delimits write a)
    {s t : List Char} (h : listed write as ++ close :: s = listed write bs ++ close :: t) : as = bs ∧ s = t := by
  cases as with
  | nil =>
    cases bs with
    | nil => simpa [listed] using h
    | cons b bs =>
      obtain ⟨c, rest, hwrite, hc⟩ := hhead b
      rw [listed, listed, hwrite] at h
      exact absurd (List.cons.inj h).1.symm hc
  | cons a as =>
    cases bs with
    | nil =>
      obtain ⟨c, rest, hwrite, hc⟩ := hhead a
      rw [listed, listed, hwrite] at h
      exact absurd (List.cons.inj h).1 hc
    | cons b bs =>
      rw [listed, listed, List.append_assoc, List.append_assoc] at h
      obtain ⟨rfl, hrest⟩ := has a List.mem_cons_self h
      have hbehind : ∀ b ∈ as, Delimits (fun b => ',' :: ' ' :: write b) b := by
        intro b hb c s t heq
        exact has b (List.mem_cons_of_mem a hb) (List.cons.inj (List.cons.inj heq).2).2
      obtain ⟨rfl, rfl⟩ := Text.eq_of_flatMap_append (fun b => ⟨',', _, rfl, hclose.symm⟩) hbehind hrest
      exact ⟨rfl, rfl⟩

end

/-- A member as it is shown. -/
def shownMember (m : String × Json) : List Char :=
  Text.quoted m.1.toList ++ ':' :: ' ' :: inspection m.2

theorem elementInspection_eq (vs : List Json) : elementInspection vs = listed inspection vs := by
  induction vs with
  | nil => rfl
  | cons v vs ih =>
    cases vs with
    | nil => exact (List.append_nil v.inspection).symm
    | cons w vs =>
      have hrest : elementInspection (v :: w :: vs) = v.inspection ++ ',' :: ' ' :: elementInspection (w :: vs) := rfl
      rw [hrest, ih]
      simp [listed]

theorem memberInspection_eq (ms : List (String × Json)) : memberInspection ms = listed shownMember ms := by
  induction ms with
  | nil => rfl
  | cons m ms ih =>
    cases ms with
    | nil => exact (List.append_nil (shownMember m)).symm
    | cons n ms =>
      have hrest : memberInspection (m :: n :: ms) = shownMember m ++ ',' :: ' ' :: memberInspection (n :: ms) := rfl
      rw [hrest, ih]
      simp [listed]

/-! ## Values -/

/-- The kinds of values that the log tells apart in front of their contents. -/
inductive Kind where
  | null
  | bool (b : Bool)
  | number
  | string
  | array
  | object

/-- The word that names a kind. -/
def Kind.word : Kind → String
  | .null => "Null"
  | .bool b => if b then "Bool(true)" else "Bool(false)"
  | .number => "Number("
  | .string => "String("
  | .array => "Array ["
  | .object => "Object \x7b"

/-- The kind of a value. -/
def kind : Json → Kind
  | .null => .null
  | .bool b => .bool b
  | .integer _ | .real _ => .number
  | .string _ => .string
  | .array _ => .array
  | .object _ => .object

/-- What is shown behind the kind of a value. -/
def shownRest : Json → List Char
  | .null | .bool _ => []
  | .integer n => Decimal.integer n ++ [')']
  | .real x => realText x.val ++ [')']
  | .string s => Text.quoted s.toList ++ [')']
  | .array vs => listed inspection vs ++ [']']
  | .object ms => listed shownMember ms ++ ['}']

theorem inspection_eq (v : Json) : v.inspection = v.kind.word.toList ++ v.shownRest := by
  cases v with
  | null => rfl
  | bool b => cases b <;> rfl
  | integer n => exact List.append_assoc ..
  | real x => exact List.append_assoc ..
  | string s => exact List.append_assoc ..
  | array vs =>
    rw [shownRest, ← elementInspection_eq]
    exact List.append_assoc ..
  | object ms =>
    rw [shownRest, ← memberInspection_eq]
    exact List.append_assoc ..

/-- No word that names a kind begins another one. -/
theorem Kind.word_delimits (k : Kind) : Delimits (fun k => (Kind.word k).toList) k := by
  intro l s t h
  rcases k with _ | (_ | _) | _ | _ | _ | _ <;> rcases l with _ | (_ | _) | _ | _ | _ | _ <;> simp_all [word]

theorem exists_cons_inspection (v : Json) : ∃ c rest, v.inspection = c :: rest ∧ c ≠ ']' := by
  have hword (k : Kind) : ∃ c rest, k.word.toList = c :: rest ∧ c ≠ ']' := by
    rcases k with _ | (_ | _) | _ | _ | _ | _ <;> simp [Kind.word]
  obtain ⟨c, rest, hc, hclose⟩ := hword v.kind
  exact ⟨c, rest ++ v.shownRest, by rw [inspection_eq, hc, List.cons_append], hclose⟩

/-- Values whose texts begin alike are of one kind, and they differ behind it if they differ. -/
theorem kind_eq_of_append {v w : Json} {s t : List Char} (h : v.inspection ++ s = w.inspection ++ t) :
    v.kind = w.kind ∧ v.shownRest ++ s = w.shownRest ++ t := by
  rw [inspection_eq, inspection_eq, List.append_assoc, List.append_assoc] at h
  exact Kind.word_delimits v.kind h

/-- Behind a number stands a parenthesis, which its own text does not have. -/
theorem shownRest_of_number {v : Json} (h : v.kind = .number) : v.shownRest = v.chars ++ [')'] ∧ ')' ∉ v.chars := by
  have hclose : ¬InNumber ')' := by simp [InNumber, Decimal.isDigit]
  cases v with cases h
  | integer n => exact ⟨rfl, fun hmem => hclose (inNumber_integer hmem)⟩
  | real x => exact ⟨rfl, fun hmem => hclose (inNumber_realText hmem)⟩

/-- The text of a number ends at the parenthesis behind it, and it is the text of no other number. -/
theorem number_delimits {v : Json} (hv : v.kind = .number) : Delimits inspection v := by
  intro w s t h
  obtain ⟨hkind, hrest⟩ := kind_eq_of_append h
  obtain ⟨hshown, hclose⟩ := shownRest_of_number hv
  obtain ⟨hshown', hclose'⟩ := shownRest_of_number (hkind ▸ hv)
  rw [hshown, hshown', List.append_assoc, List.append_assoc] at hrest
  obtain ⟨hchars, rfl⟩ := Text.eq_of_append_cons hclose hclose' hrest
  exact ⟨chars_injective hchars, rfl⟩

theorem shownMember_delimits {m : String × Json} (h : Delimits inspection m.2) : Delimits shownMember m := by
  intro n s t heq
  simp only [shownMember, List.append_assoc] at heq
  obtain ⟨hkey, hbehind⟩ := Text.quoted_delimits _ heq
  obtain ⟨hvalue, rfl⟩ := h (List.cons.inj (List.cons.inj hbehind).2).2
  exact ⟨Prod.ext (String.toList_inj.mp hkey) hvalue, rfl⟩

/-- The text by which a value is shown is that of no other value, whatever follows it. -/
theorem inspection_delimits (v : Json) : Delimits inspection v := by
  induction v using induction with
  | null =>
    intro w s t h
    obtain ⟨hkind, hrest⟩ := kind_eq_of_append h
    cases w with cases hkind
    | null => exact ⟨rfl, hrest⟩
  | bool b =>
    intro w s t h
    obtain ⟨hkind, hrest⟩ := kind_eq_of_append h
    cases w with cases hkind
    | bool => exact ⟨rfl, hrest⟩
  | integer n => exact number_delimits rfl
  | real x => exact number_delimits rfl
  | string a =>
    intro w s t h
    obtain ⟨hkind, hrest⟩ := kind_eq_of_append h
    cases w with cases hkind
    | string b =>
      simp only [shownRest, List.append_assoc] at hrest
      obtain ⟨hchars, hrest⟩ := Text.quoted_delimits _ hrest
      exact ⟨by rw [String.toList_inj.mp hchars], by simpa using hrest⟩
  | array vs ih =>
    intro w s t h
    obtain ⟨hkind, hrest⟩ := kind_eq_of_append h
    cases w with cases hkind
    | array ws =>
      simp only [shownRest, List.append_assoc, List.singleton_append] at hrest
      obtain ⟨rfl, rfl⟩ := eq_of_listed_append (by decide) exists_cons_inspection ih hrest
      exact ⟨rfl, rfl⟩
  | object ms ih =>
    intro w s t h
    obtain ⟨hkind, hrest⟩ := kind_eq_of_append h
    cases w with cases hkind
    | object ns =>
      simp only [shownRest, List.append_assoc, List.singleton_append] at hrest
      obtain ⟨rfl, rfl⟩ := eq_of_listed_append (by decide) (fun m => ⟨'"', _, rfl, by decide⟩)
        (fun m hm => shownMember_delimits (ih m hm)) hrest
      exact ⟨rfl, rfl⟩

end FirstRow.Json
