import FirstRow.Payload
import FirstRow.Proofs.Json.Numeral

/-!
# What is written reads back

The text of every value is a text of the grammar without white space, and the reader gives the value back. Both are
inductions on the value. For arrays and objects `joined` is the common form of their inner text, so that the grammar
and the reader see one list of items with commas between them.
-/
namespace FirstRow

namespace Json

open Grammar

/-- What holds of a value if it holds of its elements and of the values of its members holds of every value. -/
@[elab_as_elim]
theorem induction {motive : Json → Prop} (null : motive .null) (bool : ∀ b, motive (.bool b))
    (integer : ∀ n, motive (.integer n)) (real : ∀ x, motive (.real x)) (string : ∀ s, motive (.string s))
    (array : ∀ vs, (∀ v ∈ vs, motive v) → motive (.array vs))
    (object : ∀ ms, (∀ m ∈ ms, motive m.2) → motive (.object ms)) (v : Json) : motive v :=
  match v with
  | .null => null
  | .bool b => bool b
  | .integer n => integer n
  | .real x => real x
  | .string s => string s
  | .array vs => array vs fun u _ => induction null bool integer real string array object u
  | .object ms => object ms fun m _ => induction null bool integer real string array object m.2
termination_by sizeOf v
decreasing_by
  · have := List.sizeOf_lt_of_mem ‹u ∈ vs›
    simp only [Json.array.sizeOf_spec]
    omega
  · have := List.sizeOf_lt_of_mem ‹m ∈ ms›
    have : sizeOf m = 1 + sizeOf m.1 + sizeOf m.2 := by cases m; rfl
    simp only [Json.object.sizeOf_spec]
    omega

/-! ## Strings -/

theorem hexValue?_hexDigit {d : Nat} (h : d < 16) : hexValue? (hexDigit d) = some d := by
  interval_cases d <;> decide

theorem isHex_hexDigit {d : Nat} (h : d < 16) : IsHex (hexDigit d) := by
  unfold IsHex
  interval_cases d <;> decide

/-- A character is escaped by a letter, by its code, or not at all. -/
theorem escape_cases (c : Char) :
    (∃ e ∈ ['"', '\\', '/', 'b', 'f', 'n', 'r', 't'], escaped? e = some c ∧ escape c = ['\\', e]) ∨
      (c.toNat < 0x20 ∧
        escape c = ['\\', 'u', '0', '0', hexDigit (c.toNat / 16), hexDigit (c.toNat % 16)]) ∨
      (0x20 ≤ c.toNat ∧ c ≠ '"' ∧ c ≠ '\\' ∧ escape c = [c]) := by
  unfold escape
  split_ifs with hquote hbackslash hb hf hn hr ht hcontrol
  · exact .inl ⟨'"', by simp, by rw [hquote]; rfl, rfl⟩
  · exact .inl ⟨'\\', by simp, by rw [hbackslash]; rfl, rfl⟩
  · exact .inl ⟨'b', by simp, by rw [hb]; rfl, rfl⟩
  · exact .inl ⟨'f', by simp, by rw [hf]; rfl, rfl⟩
  · exact .inl ⟨'n', by simp, by rw [hn]; rfl, rfl⟩
  · exact .inl ⟨'r', by simp, by rw [hr]; rfl, rfl⟩
  · exact .inl ⟨'t', by simp, by rw [ht]; rfl, rfl⟩
  · exact .inr (.inl ⟨hcontrol, rfl⟩)
  · exact .inr (.inr ⟨by omega, hquote, hbackslash, rfl⟩)

theorem character_escape (c : Char) : Character (escape c) := by
  rcases escape_cases c with ⟨e, he, -, heq⟩ | ⟨hc, heq⟩ | ⟨hc, hquote, hbackslash, heq⟩
  · exact heq ▸ .escaped he
  · rw [heq]
    exact .unit (.inl (by decide)) (.inl (by decide)) (isHex_hexDigit (by omega)) (isHex_hexDigit (by omega))
  · exact heq ▸ .plain hc hquote hbackslash

theorem quoted_quote (s : String) : Quoted (quote s) := by
  refine .intro ?_
  induction s.toList with
  | nil => exact .nil
  | cons c cs ih => exact .cons (character_escape c) ih

theorem readEscape?_letter {e c : Char} (h : escaped? e = some c) (s : List Char) :
    readEscape? (e :: s) = some (c, s) := by
  have hu : e ≠ 'u' := by
    rintro rfl
    cases h
  rw [readEscape?, if_neg hu, h, Option.map_some]

theorem readEscape?_control {c : Char} (hc : c.toNat < 0x20) (s : List Char) :
    readEscape? ('u' :: '0' :: '0' :: hexDigit (c.toNat / 16) :: hexDigit (c.toNat % 16) :: s) = some (c, s) := by
  have hunit : 0x10 * (c.toNat / 16) + c.toNat % 16 = c.toNat := by omega
  have hzero : hexValue? '0' = some 0 := by decide
  simp only [readEscape?, if_true, readUnit?, hzero, hexValue?_hexDigit (show c.toNat / 16 < 16 by omega),
    hexValue?_hexDigit (show c.toNat % 16 < 16 by omega), Option.bind_eq_bind, Option.bind_some, Nat.mul_zero,
    Nat.zero_add, hunit]
  rw [if_neg (by omega), if_neg (by omega), Char.ofNat_toNat]

theorem readChars?_backslash {e : Char} {s t : List Char} (h : readEscape? t = some (e, s)) :
    readChars? ('\\' :: t) = (readChars? s).map fun r => (e :: r.1, r.2) := by
  rw [readChars?, if_neg (by decide), if_pos rfl]
  split
  · next hn =>
    rw [hn] at h
    cases h
  · next d s' hd =>
    rw [hd] at h
    cases h
    rfl

/-- The reader undoes the escape of a character. -/
theorem readChars?_escape (c : Char) (s : List Char) :
    readChars? (escape c ++ s) = (readChars? s).map fun r => (c :: r.1, r.2) := by
  rcases escape_cases c with ⟨e, -, he, heq⟩ | ⟨hc, heq⟩ | ⟨hc, hquote, hbackslash, heq⟩
  · rw [heq]
    exact readChars?_backslash (readEscape?_letter he s)
  · rw [heq]
    exact readChars?_backslash (readEscape?_control hc s)
  · rw [heq, List.singleton_append, readChars?, if_neg hquote, if_neg hbackslash, if_neg (by omega)]

/-- A string reads back. -/
theorem readString?_quote (s : String) (rest : List Char) : readString? (quote s ++ rest) = some (s, rest) := by
  have hchars (cs : List Char) : readChars? (cs.flatMap escape ++ '"' :: rest) = some (cs, rest) := by
    induction cs with
    | nil => rw [List.flatMap_nil, List.nil_append, readChars?, if_pos rfl]
    | cons c cs ih => rw [List.flatMap_cons, List.append_assoc, readChars?_escape, ih, Option.map_some]
  simp [quote, readString?, hchars]

/-! ## Lists -/

variable {α : Type}

/-- Items with commas between them. -/
def joined (write : α → List Char) : List α → List Char
  | [] => []
  | [a] => write a
  | a :: rest => write a ++ ',' :: joined write rest

theorem joined_cons_cons (write : α → List Char) (a b : α) (as : List α) :
    joined write (a :: b :: as) = write a ++ ',' :: joined write (b :: as) := rfl

/-- A member as it is written. -/
def memberText (m : String × Json) : List Char :=
  quote m.1 ++ ':' :: chars m.2

theorem elementChars_eq (vs : List Json) : elementChars vs = joined chars vs := by
  induction vs with
  | nil => rfl
  | cons v vs ih =>
    cases vs with
    | nil => rfl
    | cons w vs =>
      rw [joined_cons_cons, ← ih]
      rfl

theorem memberChars_eq (ms : List (String × Json)) : memberChars ms = joined memberText ms := by
  induction ms with
  | nil => rfl
  | cons m ms ih =>
    cases ms with
    | nil => rfl
    | cons n ms =>
      rw [joined_cons_cons, ← ih]
      rfl

/-- Every item is shorter than the list, and there are no more items than characters. -/
theorem length_write_le_joined (write : α → List Char) {as : List α} {a : α} (ha : a ∈ as) :
    (write a).length ≤ (joined write as).length := by
  induction as with
  | nil => cases ha
  | cons b as ih =>
    cases as with
    | nil =>
      rw [List.mem_singleton.mp ha]
      rfl
    | cons c as =>
      rw [joined_cons_cons, List.length_append, List.length_cons]
      rcases List.mem_cons.mp ha with rfl | ha
      · omega
      · have := ih ha
        omega

theorem length_le_joined (write : α → List Char) (as : List α) : as.length ≤ (joined write as).length + 1 := by
  induction as with
  | nil => exact Nat.zero_le _
  | cons a as ih =>
    cases as with
    | nil => simp
    | cons b as =>
      rw [joined_cons_cons, List.length_append]
      simp only [List.length_cons] at ih ⊢
      omega

theorem skipBlank_cons {c : Char} (hc : isBlank c = false) (s : List Char) : skipBlank (c :: s) = c :: s := by
  simp [skipBlank, hc]

/-- Items that are read one by one are read as a list. -/
theorem readItems?_joined {write : α → List Char} {item : List Char → Option (α × List Char)} {close : Char}
    (hclose : isBlank close = false ∧ close ≠ ',') {as : List α} (hne : as ≠ []) {fuel : Nat} (hfuel : as.length ≤ fuel)
    (hitem : ∀ a ∈ as, ∀ c ∈ [',', close], ∀ rest, item (write a ++ c :: rest) = some (a, c :: rest))
    (rest : List Char) : readItems? item close fuel (joined write as ++ close :: rest) = some (as, rest) := by
  induction as generalizing fuel with
  | nil => exact absurd rfl hne
  | cons a as ih =>
    obtain ⟨fuel, rfl⟩ : ∃ n, fuel = n + 1 := ⟨fuel - 1, by rw [List.length_cons] at hfuel; omega⟩
    cases as with
    | nil =>
      rw [joined, readItems?, hitem a (by simp) close (by simp)]
      simp only [skipBlank_cons hclose.1, if_neg hclose.2, if_true]
    | cons b as =>
      have ih := ih (by simp) (by simpa using hfuel) fun c hc => hitem c (List.mem_cons_of_mem _ hc)
      rw [joined_cons_cons, List.append_assoc, List.cons_append, readItems?, hitem a (by simp) ',' (by simp)]
      simp only [skipBlank_cons (show isBlank ',' = false by decide), if_true, ih, Option.map_some]

/-- A list of any length is read, where no item begins with white space or closes the list. -/
theorem readList?_joined {write : α → List Char} {item : List Char → Option (α × List Char)} {close : Char}
    (hclose : isBlank close = false ∧ close ≠ ',') {as : List α} {fuel : Nat} (hfuel : as.length ≤ fuel)
    (hitem : ∀ a ∈ as, ∀ c ∈ [',', close], ∀ rest, item (write a ++ c :: rest) = some (a, c :: rest))
    (hhead : ∀ a ∈ as, ∃ c s, write a = c :: s ∧ isBlank c = false ∧ c ≠ close) (rest : List Char) :
    readList? item close fuel (joined write as ++ close :: rest) = some (as, rest) := by
  cases as with
  | nil => simp [joined, readList?, skipBlank_cons hclose.1]
  | cons a as =>
    obtain ⟨c, s, hs, hblank, hc⟩ := hhead a (by simp)
    have hjoined : ∃ t, joined write (a :: as) ++ close :: rest = c :: t := by
      cases as with
      | nil => exact ⟨_, by rw [joined, hs, List.cons_append]⟩
      | cons b as => exact ⟨_, by rw [joined_cons_cons, hs, List.cons_append, List.cons_append]⟩
    obtain ⟨t, ht⟩ := hjoined
    have hread := readItems?_joined hclose (List.cons_ne_nil a as) hfuel hitem rest
    unfold readList?
    rw [ht] at hread ⊢
    simp only [skipBlank_cons hblank, if_neg hc]
    exact hread

/-! ## Values -/

/-- A value begins with a character that neither is white space nor closes a list. -/
theorem exists_cons_chars (v : Json) :
    ∃ c s, chars v = c :: s ∧ isBlank c = false ∧ c ≠ ']' ∧ c ≠ '}' := by
  have numeral {n : Numeral} (h : n.WellFormed) :
      ∃ c s, n.chars = c :: s ∧ isBlank c = false ∧ c ≠ ']' ∧ c ≠ '}' := by
    obtain ⟨c, s, hs, hc⟩ := Numeral.exists_cons_chars h
    refine ⟨c, s, hs, ?_⟩
    rcases hc with rfl | hc
    · decide
    · refine ⟨?_, ?_, ?_⟩
      · simp only [isBlank, Bool.or_eq_false_iff, beq_eq_false_iff_ne]
        refine ⟨⟨⟨?_, ?_⟩, ?_⟩, ?_⟩ <;> rintro rfl <;> exact absurd hc (by decide)
      all_goals
        rintro rfl
        exact absurd hc (by decide)
  cases v with
  | null => exact ⟨_, _, rfl, by decide⟩
  | bool b => cases b <;> exact ⟨_, _, rfl, by decide⟩
  | integer n =>
    rw [chars, ← Numeral.chars_ofInt]
    exact numeral (Numeral.wellFormed_ofInt n)
  | real x =>
    obtain ⟨n, hchars, hn, -⟩ := exists_numeral_realText x
    rw [chars, ← hchars]
    exact numeral hn
  | string s => exact ⟨_, _, rfl, by decide⟩
  | array vs => exact ⟨_, _, rfl, by decide⟩
  | object ms => exact ⟨_, _, rfl, by decide⟩

/-- There is fuel for a value that has fuel for its text. -/
theorem exists_fuel {v : Json} {fuel : Nat} (h : (chars v).length ≤ fuel) : ∃ n, fuel = n + 1 := by
  obtain ⟨c, s, hs, -⟩ := exists_cons_chars v
  rw [hs, List.length_cons] at h
  exact ⟨fuel - 1, by omega⟩

/-- Numerals are read where no other value begins. -/
theorem readValue?_numeral {n : Numeral} (h : n.WellFormed) {v : Json} (hv : n.json? = some v) (fuel : Nat)
    {rest : List Char} (hrest : Ends rest) : readValue? (fuel + 1) (n.chars ++ rest) = some (v, rest) := by
  obtain ⟨c, s, hs, hc⟩ := Numeral.exists_cons_chars h
  have hread := readNumeral?_append h hrest
  have hother : isBlank c = false ∧ c ≠ '"' ∧ c ≠ '[' ∧ c ≠ '{' ∧ c ≠ 'n' ∧ c ≠ 't' ∧ c ≠ 'f' := by
    rcases hc with rfl | hc
    · decide
    · refine ⟨?_, ?_, ?_, ?_, ?_, ?_, ?_⟩
      · simp only [isBlank, Bool.or_eq_false_iff, beq_eq_false_iff_ne]
        refine ⟨⟨⟨?_, ?_⟩, ?_⟩, ?_⟩ <;> rintro rfl <;> exact absurd hc (by decide)
      all_goals
        rintro rfl
        exact absurd hc (by decide)
  rw [hs] at hread ⊢
  rw [readValue?, List.cons_append, skipBlank_cons hother.1]
  rw [List.cons_append] at hread
  simp only [hother, if_false, hread, hv, Option.map_some]

/-- A member is read where its value is. -/
theorem readMember?_memberText {value : List Char → Option (Json × List Char)} {m : String × Json} {rest : List Char}
    (h : value (chars m.2 ++ rest) = some (m.2, rest)) : readMember? value (memberText m ++ rest) = some (m, rest) := by
  have hquote : skipBlank (quote m.1 ++ (':' :: chars m.2 ++ rest)) = quote m.1 ++ (':' :: chars m.2 ++ rest) :=
    skipBlank_cons (by decide) _
  simp only [readMember?, memberText, List.append_assoc, hquote, readString?_quote]
  rw [List.cons_append, skipBlank_cons (by decide)]
  simp [h]

theorem ends_of_mem {c : Char} {close : Char} (hclose : close = ']' ∨ close = '}') (hc : c ∈ [',', close])
    (rest : List Char) : Ends (c :: rest) := by
  refine ends_cons ?_ rest
  rcases hclose with rfl | rfl
  · exact List.mem_of_mem_take (i := 2) hc
  · revert hc
    simp
    tauto

/-- What is written reads back, whatever follows. -/
theorem readValue?_chars (v : Json) {fuel : Nat} (hfuel : (chars v).length ≤ fuel) {rest : List Char}
    (hrest : Ends rest) : readValue? fuel (chars v ++ rest) = some (v, rest) := by
  induction v using induction generalizing fuel rest with
  | null =>
    obtain ⟨fuel, rfl⟩ := exists_fuel hfuel
    rfl
  | bool b =>
    obtain ⟨fuel, rfl⟩ := exists_fuel hfuel
    cases b <;> rfl
  | integer n =>
    obtain ⟨fuel, rfl⟩ := exists_fuel hfuel
    rw [chars, ← Numeral.chars_ofInt]
    exact readValue?_numeral (Numeral.wellFormed_ofInt n) (Numeral.json?_ofInt n) fuel hrest
  | real x =>
    obtain ⟨fuel, rfl⟩ := exists_fuel hfuel
    obtain ⟨n, hchars, hn, -, hv⟩ := exists_numeral_realText x
    rw [chars, ← hchars]
    exact readValue?_numeral hn hv fuel hrest
  | string s =>
    obtain ⟨fuel, rfl⟩ := exists_fuel hfuel
    have hread := readString?_quote s rest
    rw [quote, List.cons_append, List.cons_append] at hread
    rw [chars, quote, List.cons_append, List.cons_append, readValue?, skipBlank_cons (by decide)]
    simp only [if_true, hread, Option.map_some]
  | array vs ih =>
    obtain ⟨fuel, rfl⟩ := exists_fuel hfuel
    rw [chars, elementChars_eq] at hfuel ⊢
    simp only [List.length_append, List.length_cons] at hfuel
    have hlength := length_le_joined chars vs
    have hread : readList? (readValue? fuel) ']' fuel (joined chars vs ++ ']' :: rest) = some (vs, rest) := by
      refine readList?_joined (by decide) (by omega) ?_ ?_ rest
      · intro u hu c hc rest
        have := length_write_le_joined chars hu
        exact ih u hu (by omega) (ends_of_mem (.inl rfl) hc rest)
      · intro u _
        obtain ⟨c, s, hs, hblank, hc, -⟩ := exists_cons_chars u
        exact ⟨c, s, hs, hblank, hc⟩
    rw [List.cons_append, List.cons_append, List.append_assoc, readValue?, skipBlank_cons (by decide)]
    simp only [show ('[' : Char) ≠ '"' by decide, if_false, if_true, List.singleton_append, hread, Option.map_some]
  | object ms ih =>
    obtain ⟨fuel, rfl⟩ := exists_fuel hfuel
    rw [chars, memberChars_eq] at hfuel ⊢
    simp only [List.length_append, List.length_cons] at hfuel
    have hlength := length_le_joined memberText ms
    have hread : readList? (readMember? (readValue? fuel)) '}' fuel (joined memberText ms ++ '}' :: rest) =
        some (ms, rest) := by
      refine readList?_joined (by decide) (by omega) ?_ ?_ rest
      · intro m hm c hc rest
        have := length_write_le_joined memberText hm
        simp only [memberText, List.length_append, List.length_cons] at this
        exact readMember?_memberText (ih m hm (by omega) (ends_of_mem (.inr rfl) hc rest))
      · exact fun m _ => ⟨'"', _, rfl, by decide⟩
    rw [List.cons_append, List.cons_append, List.append_assoc, readValue?, skipBlank_cons (by decide)]
    simp only [show ('{' : Char) ≠ '"' by decide, show ('{' : Char) ≠ '[' by decide, if_false, if_true,
      List.singleton_append, hread, Option.map_some]

/-- The text of a value reads back as the value. -/
theorem read?_text (v : Json) : read? v.text = some v := by
  have hread := readValue?_chars v (Nat.le_add_right (chars v).length 1) ends_nil
  rw [List.append_nil] at hread
  rw [read?, text, String.toList_ofList, hread]
  rfl

/-! ## The grammar -/

theorem around_noSpace (c : Char) : Around NoSpace c [c] :=
  .intro (a := []) (b := []) rfl rfl

theorem elements_joined {vs : List Json} (hne : vs ≠ []) (h : ∀ v ∈ vs, Value NoSpace (chars v)) :
    Elements NoSpace (joined chars vs) := by
  induction vs with
  | nil => exact absurd rfl hne
  | cons v vs ih =>
    cases vs with
    | nil => exact .one (h v (by simp))
    | cons u vs =>
      rw [joined_cons_cons, List.append_cons]
      exact .more (h v (by simp)) (around_noSpace ',') (ih (by simp) fun w hw => h w (List.mem_cons_of_mem v hw))

theorem members_joined {ms : List (String × Json)} (hne : ms ≠ []) (h : ∀ m ∈ ms, Value NoSpace (chars m.2)) :
    Members NoSpace (joined memberText ms) := by
  induction ms with
  | nil => exact absurd rfl hne
  | cons m ms ih =>
    have hm : memberText m = quote m.1 ++ [':'] ++ chars m.2 := by simp [memberText]
    cases ms with
    | nil =>
      rw [joined, hm]
      exact .one (quoted_quote m.1) (around_noSpace ':') (h m (by simp))
    | cons n ms =>
      rw [joined_cons_cons, List.append_cons, hm]
      exact .more (quoted_quote m.1) (around_noSpace ':') (h m (by simp)) (around_noSpace ',')
        (ih (by simp) fun w hw => h w (List.mem_cons_of_mem m hw))

/-- The text of a value is a value of the grammar. -/
theorem value_chars (v : Json) : Value NoSpace (chars v) := by
  induction v using induction with
  | null => exact .null
  | bool b =>
    cases b with
    | true => exact .true
    | false => exact .false
  | integer n =>
    rw [chars, ← Numeral.chars_ofInt]
    exact .number (Numeral.number_chars (Numeral.wellFormed_ofInt n))
  | real x =>
    obtain ⟨n, hchars, hn, -⟩ := exists_numeral_realText x
    rw [chars, ← hchars]
    exact .number (Numeral.number_chars hn)
  | string s => exact .string (quoted_quote s)
  | array vs ih =>
    rw [chars, elementChars_eq]
    by_cases hne : vs = []
    · subst hne
      exact .emptyArray (around_noSpace '[') (around_noSpace ']')
    · exact .array (around_noSpace '[') (elements_joined hne ih) (around_noSpace ']')
  | object ms ih =>
    rw [chars, memberChars_eq]
    by_cases hne : ms = []
    · subst hne
      exact .emptyObject (around_noSpace '{') (around_noSpace '}')
    · exact .object (around_noSpace '{') (members_joined hne ih) (around_noSpace '}')

theorem document_text (v : Json) : Document NoSpace v.text.toList := by
  rw [text, String.toList_ofList]
  have : Document NoSpace ([] ++ chars v ++ []) := .intro rfl (value_chars v) rfl
  simpa using this

/-! ## Integers and reals -/

/-- A character that makes a number a real. -/
def IsRealMark (c : Char) : Prop :=
  c = '.' ∨ c = 'e' ∨ c = 'E'

theorem not_isRealMark_of_isDigit {c : Char} (hc : Decimal.isDigit c = true) : ¬IsRealMark c := by
  rintro (rfl | rfl | rfl) <;> exact absurd hc (by decide)

theorem not_isRealMark_of_isBlank {c : Char} (hc : isBlank c = true) : ¬IsRealMark c := by
  rintro (rfl | rfl | rfl) <;> exact absurd hc (by decide)

/-- A run of digits is split off whole. -/
theorem readDigits?_eq_some {s ds rest : List Char} (h : readDigits? s = some (ds, rest)) :
    s = ds ++ rest ∧ Digits ds := by
  simp only [readDigits?] at h
  split at h
  · cases h
  · next hne =>
    simp only [Option.some.injEq, Prod.mk.injEq] at h
    obtain ⟨rfl, rfl⟩ := h
    exact ⟨(List.takeWhile_append_dropWhile ..).symm, hne, fun c hc => List.mem_takeWhile_imp hc⟩

theorem readFraction?_eq_nil {s rest : List Char} (h : readFraction? s = some ([], rest)) : s = rest := by
  cases s with
  | nil =>
    cases h
    rfl
  | cons c s =>
    simp only [readFraction?] at h
    split at h
    · exact absurd rfl (readDigits?_eq_some h).2.ne_nil
    · cases h
      rfl

theorem readPower?_eq_none {s rest : List Char} (h : readPower? s = some (none, rest)) : s = rest := by
  cases s with
  | nil =>
    cases h
    rfl
  | cons c s =>
    simp only [readPower?] at h
    split at h
    · split at h <;> simp at h
    · cases h
      rfl

/-- A numeral without point and exponent was only a sign and digits. -/
theorem readMagnitude?_exact {negative : Bool} {s rest : List Char} {n : Numeral}
    (h : readMagnitude? negative s = some (n, rest)) (hn : n.fraction = [] ∧ n.power = none) :
    ∃ ds, s = ds ++ rest ∧ Digits ds := by
  simp only [readMagnitude?, Option.bind_eq_bind, Option.bind_eq_some_iff] at h
  obtain ⟨⟨ds, s₁⟩, hds, h⟩ := h
  simp only at h
  split at h
  · cases h
  simp only [Option.bind_eq_some_iff] at h
  obtain ⟨⟨fraction, s₂⟩, hfraction, ⟨power, s₃⟩, hpower, h⟩ := h
  simp only [Option.some.injEq, Prod.mk.injEq] at h
  obtain ⟨rfl, rfl⟩ := h
  obtain ⟨rfl, rfl⟩ := hn
  obtain ⟨rfl, hd⟩ := readDigits?_eq_some hds
  obtain rfl : s₁ = s₂ := readFraction?_eq_nil hfraction
  obtain rfl : s₁ = s₃ := readPower?_eq_none hpower
  exact ⟨ds, rfl, hd⟩

theorem readNumeral?_exact {s rest : List Char} {n : Numeral} (h : readNumeral? s = some (n, rest))
    (hn : n.fraction = [] ∧ n.power = none) : ∃ sign ds, s = sign ++ (ds ++ rest) ∧ (sign = [] ∨ sign = ['-']) ∧
      Digits ds := by
  cases s with
  | nil => cases h
  | cons c s =>
    simp only [readNumeral?] at h
    split at h
    · next hc =>
      obtain ⟨ds, rfl, hd⟩ := readMagnitude?_exact h hn
      exact ⟨['-'], ds, by rw [hc]; rfl, .inr rfl, hd⟩
    · obtain ⟨ds, hs, hd⟩ := readMagnitude?_exact h hn
      exact ⟨[], ds, hs, .inl rfl, hd⟩

/-- Only a numeral without point and exponent is an integer. -/
theorem Numeral.exact_of_json? {n : Numeral} {k : Int} (h : n.json? = some (.integer k)) :
    n.fraction = [] ∧ n.power = none := by
  simp only [json?] at h
  split at h
  · assumption
  · split at h <;> cases h

theorem readValue?_integer {fuel : Nat} {s rest : List Char} {k : Int}
    (h : readValue? fuel s = some (.integer k, rest)) :
    ∃ sign ds, skipBlank s = sign ++ (ds ++ rest) ∧ (sign = [] ∨ sign = ['-']) ∧ Digits ds := by
  cases fuel with
  | zero => cases h
  | succ fuel =>
    simp only [readValue?] at h
    cases hs : skipBlank s with
    | nil =>
      rw [hs] at h
      cases h
    | cons c t =>
      simp only [hs] at h
      split_ifs at h
      case neg =>
        split at h
        · cases h
        · next n t' hn =>
          simp only [Option.map_eq_some_iff, Prod.mk.injEq] at h
          obtain ⟨v, hv, rfl, rfl⟩ := h
          exact readNumeral?_exact hn (Numeral.exact_of_json? hv)
      all_goals simp at h

/-- A number with a point or an exponent never reads as an integer. -/
theorem read?_ne_integer {t : String} (h : ∃ c ∈ t.toList, IsRealMark c) (k : Int) : read? t ≠ some (.integer k) := by
  intro hread
  unfold read? at hread
  split at hread
  · cases hread
  · next v rest hv =>
    split at hread
    · next hrest =>
      cases hread
      obtain ⟨sign, ds, hs, hsign, hd⟩ := readValue?_integer hv
      obtain ⟨c, hc, hmark⟩ := h
      rw [← List.takeWhile_append_dropWhile (p := isBlank) (l := t.toList), show t.toList.dropWhile isBlank = _ from hs,
        ← List.takeWhile_append_dropWhile (p := isBlank) (l := rest), show rest.dropWhile isBlank = [] from hrest]
        at hc
      simp only [List.mem_append, List.not_mem_nil, or_false] at hc
      rcases hc with hc | hc | hc | hc
      · exact not_isRealMark_of_isBlank (List.mem_takeWhile_imp hc) hmark
      · rcases hsign with rfl | rfl
        · cases hc
        · rw [List.mem_singleton.mp hc] at hmark
          exact absurd hmark (by simp [IsRealMark])
      · exact not_isRealMark_of_isDigit (hd.all c hc) hmark
      · exact not_isRealMark_of_isBlank (List.mem_takeWhile_imp hc) hmark
    · cases hread

/-- The text of a real has a point or an exponent. -/
theorem exists_isRealMark_realText (x : Binary64.Finite) : ∃ c ∈ realText x.val, IsRealMark c := by
  obtain ⟨n, hchars, -, hinexact, -⟩ := exists_numeral_realText x
  rw [← hchars]
  simp only [Numeral.chars, List.mem_append]
  by_cases hf : n.fraction = []
  · cases hp : n.power with
    | none => exact absurd ⟨hf, hp⟩ hinexact
    | some e => exact ⟨'e', by simp [powerChars], by simp [IsRealMark]⟩
  · exact ⟨'.', by simp [fractionChars, hf], by simp [IsRealMark]⟩

end Json

/-- The text of an answer is a compact text of the grammar, without control characters, and reads back as the object
with the row that was served, so that answers with the same text serve the same row. Reals keep apart from integers:
the text of one has a point or an exponent and reads back as that real, and no text with such a mark reads as an
integer. -/
theorem Payload.text_reads_back (row : Option Row) :
    (Json.Grammar.Document Json.Grammar.NoSpace (ofRow? row).text.toList ∧
      Json.Grammar.Document Json.Grammar.Blank (ofRow? row).text.toList ∧
      ∀ c ∈ (ofRow? row).text.toList, 0x20 ≤ c.toNat) ∧
    Json.read? (ofRow? row).text = some (match row with
      | none => .object []
      | some r => .object [("id", r.id), ("data", r.data)]) ∧
    (∀ other : Option Row, (ofRow? other).text = (ofRow? row).text → other = row) ∧
    (∀ x : Binary64.Finite, (∃ c ∈ Json.realText x.val, Json.IsRealMark c) ∧
      Json.read? (Json.text (.real x)) = some (.real x)) ∧
    ∀ (t : String) (k : Int), (∃ c ∈ t.toList, Json.IsRealMark c) → Json.read? t ≠ some (.integer k) := by
  have hread (row : Option Row) : Json.read? (ofRow? row).text = some (ofRow? row).toJson := Json.read?_text _
  have hdocument := Json.document_text (ofRow? row).toJson
  refine ⟨⟨hdocument, hdocument.blank, hdocument.printable⟩, ?_, fun other hother => ?_, fun x => ⟨?_, ?_⟩, ?_⟩
  · rw [hread]
    cases row <;> rfl
  · have heq : (ofRow? other).toJson = (ofRow? row).toJson := by
      rw [← Option.some.injEq, ← hread, ← hread, hother]
    cases other <;> cases row <;> simp [ofRow?, toJson] at heq ⊢
    next r s =>
      obtain ⟨hid, hdata⟩ := heq
      cases r
      cases s
      simp_all
  · exact Json.exists_isRealMark_realText x
  · exact Json.read?_text _
  · exact fun t k h => Json.read?_ne_integer h k

theorem Payload.text_reads_back_one :
    Json.read? (ofRow? (some ⟨.integer 1, .string "one"⟩)).text =
        some (.object [("id", .integer 1), ("data", .string "one")]) ∧
      Json.read? "1.0" ≠ some (.integer 1) :=
  ⟨(text_reads_back _).2.1, (text_reads_back none).2.2.2.2 "1.0" 1 ⟨'.', by simp, .inl rfl⟩⟩

end FirstRow
