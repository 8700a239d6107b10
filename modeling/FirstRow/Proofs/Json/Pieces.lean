import FirstRow.Payload
import FirstRow.Proofs.Json.Inspection

/-!
# What the log takes from the data

The text that shows a value, cut into what the log writes by itself and what it takes from the data: strings and the keys
of members, each of them in quotes. What the log writes by itself has no quote and no backslash, so the quotes around a
text of the data are the only ones that can open or close it.
-/
namespace FirstRow

open Text (KeepsLine backslashes quotedChar)

/-- A piece of a text that shows data. -/
inductive Piece where
  /-- Words and signs of the log, and numbers. -/
  | markup (text : List Char)
  /-- A string or a key of the data. -/
  | data (text : List Char)

namespace Piece

/-- The characters of a piece: a text of the data stands in quotes. -/
def chars : Piece → List Char
  | .markup text => text
  | .data text => Text.quoted text

/-- What the log writes by itself stays in its line and has no quote and no backslash. -/
def IsPlain : Piece → Prop
  | .markup text => ∀ c ∈ text, KeepsLine c ∧ c ≠ '"' ∧ c ≠ '\\'
  | .data _ => True

-- the instance for lists: `Char` alone has one too that goes through all characters
instance : DecidablePred IsPlain
  | .markup text => List.decidableBAll (fun c => KeepsLine c ∧ c ≠ '"' ∧ c ≠ '\\') text
  | .data _ => .isTrue trivial

theorem keepsLine_of_mem {p : Piece} (h : p.IsPlain) {c : Char} (hc : c ∈ p.chars) : KeepsLine c := by
  cases p with
  | markup text => exact (h c hc).1
  | data text =>
    simp only [chars, Text.quoted, List.cons_append, List.mem_cons, List.mem_append, List.mem_flatMap,
      List.not_mem_nil, or_false] at hc
    rcases hc with rfl | ⟨d, -, hd⟩ | rfl
    · decide
    · exact Text.keepsLine_quotedChar hd
    · decide

/-- An even number of backslashes is left behind a piece. -/
theorem even_backslashes {p : Piece} (h : p.IsPlain) {text : List Char} (heven : Even (backslashes text)) :
    Even (backslashes (text ++ p.chars)) := by
  cases p with
  | markup t =>
    rcases List.eq_nil_or_concat t with rfl | ⟨front, c, rfl⟩
    · simpa [chars] using heven
    · rw [chars, List.concat_eq_append, ← List.append_assoc, Text.backslashes_append_of_ne _ (h c (by simp)).2.2]
      exact Even.zero
  | data t =>
    rw [chars, Text.quoted, ← List.append_assoc, Text.backslashes_append_of_ne _ (by decide)]
    exact Even.zero

theorem even_backslashes_flatMap {ps : List Piece} (h : ∀ p ∈ ps, p.IsPlain) {text : List Char}
    (heven : Even (backslashes text)) : Even (backslashes (text ++ ps.flatMap chars)) := by
  induction ps generalizing text with
  | nil => simpa using heven
  | cons p ps ih =>
    rw [List.flatMap_cons, ← List.append_assoc]
    exact ih (fun q hq => h q (List.mem_cons_of_mem p hq)) (even_backslashes (h p List.mem_cons_self) heven)

end Piece

/-! ## Values -/

namespace Json

mutual

/-- The pieces of the text that shows a value. -/
def pieces : Json → List Piece
  | .string s => [.markup Kind.string.word.toList, .data s.toList, .markup [')']]
  | .array elements => .markup Kind.array.word.toList :: (elementPieces elements ++ [.markup [']']])
  | .object members => .markup Kind.object.word.toList :: (memberPieces members ++ [.markup ['}']])
  | v => [.markup v.inspection]

/-- The pieces of the text that shows the elements of an array. -/
def elementPieces : List Json → List Piece
  | [] => []
  | [v] => pieces v
  | v :: rest => pieces v ++ .markup [',', ' '] :: elementPieces rest

/-- The pieces of the text that shows the members of an object. -/
def memberPieces : List (String × Json) → List Piece
  | [] => []
  | [(k, v)] => .data k.toList :: .markup [':', ' '] :: pieces v
  | (k, v) :: rest =>
    .data k.toList :: .markup [':', ' '] :: (pieces v ++ .markup [',', ' '] :: memberPieces rest)

end

/-! Together the pieces are the text. -/

theorem flatMap_elementPieces {vs : List Json} (h : ∀ v ∈ vs, v.pieces.flatMap Piece.chars = v.inspection) :
    (elementPieces vs).flatMap Piece.chars = listed inspection vs := by
  induction vs with
  | nil => rfl
  | cons v vs ih =>
    have hv := h v List.mem_cons_self
    have hvs := ih fun w hw => h w (List.mem_cons_of_mem v hw)
    cases vs with
    | nil => simpa [elementPieces, listed] using hv
    | cons w vs => simpa [elementPieces, listed, Piece.chars, hv] using hvs

theorem flatMap_memberPieces {ms : List (String × Json)} (h : ∀ m ∈ ms, m.2.pieces.flatMap Piece.chars = m.2.inspection) :
    (memberPieces ms).flatMap Piece.chars = listed shownMember ms := by
  induction ms with
  | nil => rfl
  | cons m ms ih =>
    have hm := h m List.mem_cons_self
    have hms := ih fun n hn => h n (List.mem_cons_of_mem m hn)
    cases ms with
    | nil => simpa [memberPieces, listed, shownMember, Piece.chars] using hm
    | cons n ms => simpa [memberPieces, listed, shownMember, Piece.chars, hm] using hms

theorem flatMap_pieces (v : Json) : v.pieces.flatMap Piece.chars = v.inspection := by
  induction v using induction with
  | string s =>
    rw [inspection_eq]
    simp [pieces, Piece.chars, kind, shownRest]
  | array vs ih =>
    rw [inspection_eq, shownRest, ← flatMap_elementPieces ih]
    simp [pieces, Piece.chars, kind]
  | object ms ih =>
    rw [inspection_eq, shownRest, ← flatMap_memberPieces ih]
    simp [pieces, Piece.chars, kind]
  | _ => simp [pieces, Piece.chars]

/-! Nothing that the log writes by itself could end a line or open a quote. -/

theorem isPlain_word (k : Kind) : (Piece.markup k.word.toList).IsPlain := by
  rcases k with _ | (_ | _) | _ | _ | _ | _ <;> decide

theorem isPlain_number {v : Json} (hv : v.kind = .number) (hchars : ∀ c ∈ v.chars, InNumber c) :
    (Piece.markup v.inspection).IsPlain := by
  rw [inspection_eq, (shownRest_of_number hv).1]
  intro c hc
  rw [List.mem_append, List.mem_append, List.mem_singleton] at hc
  rcases hc with hword | hnumber | rfl
  · exact isPlain_word _ c hword
  · rcases hchars c hnumber with hdigit | hsign
    · have := (Decimal.isDigit_iff c).mp hdigit
      exact ⟨Text.keepsLine_of_ascii (by omega), by rintro rfl; simp at this, by rintro rfl; simp at this⟩
    · simp only [List.mem_cons, List.not_mem_nil, or_false] at hsign
      obtain rfl | rfl | rfl | rfl := hsign <;> decide
  · decide

theorem isPlain_close {c : Char} (h : KeepsLine c ∧ c ≠ '"' ∧ c ≠ '\\') : (Piece.markup [c]).IsPlain :=
  fun _ hd => List.mem_singleton.mp hd ▸ h

theorem isPlain_comma : (Piece.markup [',', ' ']).IsPlain := by
  decide

theorem isPlain_colon : (Piece.markup [':', ' ']).IsPlain := by
  decide

theorem isPlain_elementPieces {vs : List Json} (h : ∀ v ∈ vs, ∀ p ∈ v.pieces, p.IsPlain) :
    ∀ p ∈ elementPieces vs, p.IsPlain := by
  induction vs with
  | nil => simp [elementPieces]
  | cons v vs ih =>
    have hv := h v List.mem_cons_self
    have hvs := ih fun w hw => h w (List.mem_cons_of_mem v hw)
    cases vs with
    | nil => exact hv
    | cons w vs =>
      intro p hp
      simp only [elementPieces, List.mem_append, List.mem_cons] at hp
      rcases hp with hp | rfl | hp
      · exact hv p hp
      · exact isPlain_comma
      · exact hvs p hp

theorem isPlain_memberPieces {ms : List (String × Json)} (h : ∀ m ∈ ms, ∀ p ∈ m.2.pieces, p.IsPlain) :
    ∀ p ∈ memberPieces ms, p.IsPlain := by
  induction ms with
  | nil => simp [memberPieces]
  | cons m ms ih =>
    have hm := h m List.mem_cons_self
    have hms := ih fun n hn => h n (List.mem_cons_of_mem m hn)
    cases ms with
    | nil =>
      intro p hp
      simp only [memberPieces, List.mem_cons] at hp
      rcases hp with rfl | rfl | hp
      · trivial
      · exact isPlain_colon
      · exact hm p hp
    | cons n ms =>
      intro p hp
      simp only [memberPieces, List.mem_append, List.mem_cons] at hp
      rcases hp with rfl | rfl | hp | rfl | hp
      · trivial
      · exact isPlain_colon
      · exact hm p hp
      · exact isPlain_comma
      · exact hms p hp

theorem isPlain_pieces (v : Json) : ∀ p ∈ v.pieces, p.IsPlain := by
  induction v using induction with
  | null =>
    simp only [pieces, List.mem_singleton, forall_eq]
    exact isPlain_word .null
  | bool b =>
    simp only [pieces, List.mem_singleton, forall_eq, inspection_eq, shownRest, List.append_nil]
    exact isPlain_word (.bool b)
  | integer n =>
    simp only [pieces, List.mem_singleton, forall_eq]
    exact isPlain_number rfl fun c hc => inNumber_integer hc
  | real x =>
    simp only [pieces, List.mem_singleton, forall_eq]
    exact isPlain_number rfl fun c hc => inNumber_realText hc
  | string s =>
    simp only [pieces, List.mem_cons, List.not_mem_nil, or_false, forall_eq_or_imp, forall_eq]
    exact ⟨isPlain_word .string, trivial, isPlain_close (by decide)⟩
  | array vs ih =>
    simp only [pieces, List.mem_cons, List.mem_append, List.not_mem_nil, or_false, or_imp, forall_and,
      forall_eq]
    exact ⟨isPlain_word .array, isPlain_elementPieces ih, isPlain_close (by decide)⟩
  | object ms ih =>
    simp only [pieces, List.mem_cons, List.mem_append, List.not_mem_nil, or_false, or_imp, forall_and,
      forall_eq]
    exact ⟨isPlain_word .object, isPlain_memberPieces ih, isPlain_close (by decide)⟩

end Json

/-! ## What is served -/

namespace Payload

theorem inspectionChars_empty : Payload.empty.inspectionChars = "Empty(\x7b\x7d)".toList :=
  rfl

theorem inspectionChars_row (r : Row) : (Payload.row r).inspectionChars =
    "Row(TestRow \x7b id: ".toList ++ r.id.inspection ++ ", data: ".toList ++ r.data.inspection ++ " \x7d)".toList :=
  rfl

/-- The pieces of the text by which the log shows what is served. -/
def pieces : Payload → List Piece
  | .empty => [.markup "Empty(\x7b\x7d)".toList]
  | .row r =>
    .markup "Row(TestRow \x7b id: ".toList ::
      (r.id.pieces ++ .markup ", data: ".toList :: (r.data.pieces ++ [.markup " \x7d)".toList]))

theorem flatMap_pieces (p : Payload) : p.pieces.flatMap Piece.chars = p.inspectionChars := by
  cases p with
  | empty => exact List.append_nil _
  | row r =>
    rw [inspectionChars_row]
    simp [pieces, Piece.chars, Json.flatMap_pieces]

theorem isPlain_pieces (p : Payload) : ∀ q ∈ p.pieces, q.IsPlain := by
  cases p with
  | empty =>
    simp only [pieces, List.mem_singleton, forall_eq]
    decide
  | row r =>
    simp only [pieces, List.mem_cons, List.mem_append, List.not_mem_nil, or_false, or_imp, forall_and,
      forall_eq]
    refine ⟨?_, r.id.isPlain_pieces, ?_, r.data.isPlain_pieces, ?_⟩ <;> decide

end Payload
end FirstRow
