import FirstRow.Server
import FirstRow.Proofs.Json.Pieces

/-!
# The line behind a served row

What the log says of a served row determines the row, down to the bits of its reals: `serving_inj`. And it stays one
line in which no stored text can close the quotes that it stands in: `serving_contains_data`.
-/
namespace FirstRow

open Text (KeepsLine backslashes quoted quotedChar)

namespace Payload

theorem inspectionChars_inj {p q : Payload} (h : p.inspectionChars = q.inspectionChars) : p = q := by
  cases p with
  | empty =>
    cases q with
    | empty => rfl
    | row r =>
      rw [inspectionChars_empty, inspectionChars_row] at h
      simp at h
  | row r =>
    cases q with
    | empty =>
      rw [inspectionChars_empty, inspectionChars_row] at h
      simp at h
    | row r' =>
      rw [inspectionChars_row, inspectionChars_row] at h
      simp only [List.append_assoc] at h
      obtain ⟨hid, hrest⟩ := Json.inspection_delimits r.id (List.append_cancel_left h)
      obtain ⟨hdata, -⟩ := Json.inspection_delimits r.data (List.append_cancel_left hrest)
      rw [show r = r' from Row.mk.injEq .. ▸ ⟨hid, hdata⟩]

end Payload

namespace Server

theorem serving_text (p : Payload) : (serving p).text.toList = "Serving ".toList ++ p.inspectionChars := by
  rw [← String.toList_ofList (l := p.inspectionChars), ← String.toList_append]
  rfl

/-- The line behind a served row is that of no other row: not its text alone, and not the event. The texts of values
inside are told apart wherever they stand, and a quoted text is not taken for a part of what follows it. -/
theorem serving_inj :
    (∀ p q : Payload, p.inspection = q.inspection ↔ p = q) ∧
    (∀ p q : Payload, serving p = serving q ↔ p = q) ∧
    (∀ (v w : Json) (s t : List Char), v.inspection ++ s = w.inspection ++ t ↔ v = w ∧ s = t) ∧
    ∀ a b s t : List Char, quoted a ++ s = quoted b ++ t ↔ a = b ∧ s = t := by
  refine ⟨fun p q => ⟨fun h => ?_, congrArg _⟩, fun p q => ⟨fun h => ?_, congrArg _⟩,
    fun v w s t => ⟨fun h => v.inspection_delimits h, ?_⟩, fun a b s t => ⟨fun h => Text.quoted_delimits a h, ?_⟩⟩
  · exact Payload.inspectionChars_inj (String.ofList_injective h)
  · have htext := congrArg (String.toList ∘ Event.text) h
    simp only [Function.comp_apply, serving_text] at htext
    exact Payload.inspectionChars_inj (List.append_cancel_left htext)
  · rintro ⟨rfl, rfl⟩
    rfl
  · rintro ⟨rfl, rfl⟩
    rfl

/-- The pieces of the line behind a served row. -/
def servingPieces (p : Payload) : List Piece :=
  .markup "Serving ".toList :: p.pieces

theorem flatMap_servingPieces (p : Payload) : (servingPieces p).flatMap Piece.chars = (serving p).text.toList := by
  rw [serving_text, servingPieces, List.flatMap_cons, p.flatMap_pieces]
  rfl

theorem isPlain_servingPieces (p : Payload) : ∀ q ∈ servingPieces p, q.IsPlain := by
  rw [servingPieces, List.forall_mem_cons]
  refine ⟨?_, p.isPlain_pieces⟩
  decide

/-- The line behind a served row has no control character and no separator of lines or paragraphs. It is made of pieces:
those that the log writes by itself have no quote and no backslash, and the others are the strings and keys of the row,
each in quotes of its own. A quote inside of those stands behind an odd number of backslashes, the one that ends them
behind an even number, however many backslashes the data has in front of it. -/
theorem serving_contains_data (p : Payload) :
    (∀ c ∈ (serving p).text.toList, KeepsLine c) ∧
    (serving p).text.toList = (servingPieces p).flatMap Piece.chars ∧
    (∀ text, .markup text ∈ servingPieces p → '"' ∉ text ∧ '\\' ∉ text) ∧
    ∀ front text back, servingPieces p = front ++ .data text :: back →
      (∀ u w, text.flatMap quotedChar = u ++ '"' :: w → Odd (backslashes (front.flatMap Piece.chars ++ '"' :: u))) ∧
      Even (backslashes (front.flatMap Piece.chars ++ '"' :: text.flatMap quotedChar)) := by
  have hplain := isPlain_servingPieces p
  refine ⟨fun c hc => ?_, (flatMap_servingPieces p).symm, fun text htext => ?_, fun front text back hpieces => ?_⟩
  · rw [← flatMap_servingPieces] at hc
    obtain ⟨q, hq, hc⟩ := List.mem_flatMap.mp hc
    exact Piece.keepsLine_of_mem (hplain q hq) hc
  · have hchars := hplain _ htext
    exact ⟨fun hquote => (hchars _ hquote).2.1 rfl, fun hbackslash => (hchars _ hbackslash).2.2 rfl⟩
  · have hopen : Even (backslashes (front.flatMap Piece.chars ++ ['"'])) := by
      rw [Text.backslashes_append_of_ne _ (by decide)]
      exact Even.zero
    simpa using Text.backslashes_flatMap_quotedChar text hopen

/-- A row whose text is a backslash and a quote. -/
theorem serving_contains_data_of_quote :
    ∃ front back, servingPieces (.row ⟨.integer 1, .string "\\\""⟩) = front ++ .data ['\\', '"'] :: back ∧
      ['\\', '"'].flatMap quotedChar = ['\\', '\\', '\\'] ++ '"' :: [] ∧
      Odd (backslashes (front.flatMap Piece.chars ++ '"' :: ['\\', '\\', '\\'])) :=
  have hpieces : servingPieces (.row ⟨.integer 1, .string "\\\""⟩) =
      [.markup "Serving ".toList, .markup "Row(TestRow \x7b id: ".toList, .markup (Json.inspection (.integer 1)),
        .markup ", data: ".toList, .markup "String(".toList] ++
        .data ['\\', '"'] :: [.markup [')'], .markup " \x7d)".toList] := rfl
  have hquoted : ['\\', '"'].flatMap quotedChar = ['\\', '\\', '\\'] ++ '"' :: [] := by decide
  ⟨_, _, hpieces, hquoted, ((serving_contains_data _).2.2.2 _ _ _ hpieces).1 _ _ hquoted⟩

end Server
end FirstRow
