import FirstRow.Sql.Affinity

/-!
# The type of row numbers

A column that the primary key is declared on can stand for the row number if its type is `INTEGER`. `ColumnType.IsInteger`
says which texts are that type.
-/
namespace FirstRow.Sql

open FirstRow.Text

/-- A text is the type `INTEGER`, in any letter case, by itself or in quotation marks. The words `generated always` at its
end do not count. -/
def ColumnType.IsInteger (declared : List UInt8) : Prop :=
  Octet.spells "integer" (withoutGenerated declared) = true ∨
    ∃ opening inner closing, withoutGenerated declared = opening :: (inner ++ [closing]) ∧
      isQuotationMark opening = true ∧ Octet.spells "integer" inner = true

namespace ColumnType

/-- No letter of the word is a quotation mark. -/
theorem not_isQuotationMark {s : List UInt8} (h : Octet.spells "integer" s = true) {b : UInt8} (hb : b ∈ s) :
    isQuotationMark b = false := by
  have hlower : Octet.lower b ∈ Utf8.ofString "integer" := by
    rw [← of_decide_eq_true h]
    exact List.mem_map_of_mem hb
  cases hmark : isQuotationMark b with
  | false => rfl
  | true =>
    simp only [isQuotationMark, Bool.or_eq_true, decide_eq_true_eq] at hmark
    rcases hmark with ((rfl | rfl) | rfl) | rfl <;> exact absurd hlower (by decide)

theorem length_of_spells {s : List UInt8} (h : Octet.spells "integer" s = true) : s.length = 7 := by
  rw [← List.length_map (f := Octet.lower), of_decide_eq_true h]
  decide

theorem ofName?_integer {s : List UInt8} : StandardType.ofName? s = some .integer ↔ Octet.spells "integer" s = true := by
  have hother {w : String} (hw : Utf8.ofString w ≠ Utf8.ofString "integer") (h : Octet.spells "integer" s = true) :
      Octet.spells w s = false := by
    simpa [Octet.spells, of_decide_eq_true h] using fun hsame => hw hsame.symm
  unfold StandardType.ofName?
  constructor
  · intro h
    split at h
    · cases h
    split at h
    · cases h
    split at h
    · cases h
    split at h
    · assumption
    split at h
    · cases h
    split at h <;> cases h
  · intro h
    rw [hother (by decide) h, hother (by decide) h, hother (by decide) h, h]
    rfl

/-- What stands in quotation marks is taken out of them. -/
theorem spells_unquoteWhole {s : List UInt8} : Octet.spells "integer" (unquoteWhole s) = true ↔
    Octet.spells "integer" s = true ∨ ∃ opening inner closing, s = opening :: (inner ++ [closing]) ∧
      isQuotationMark opening = true ∧ Octet.spells "integer" inner = true := by
  unfold unquoteWhole
  split
  · next b c rest =>
    simp only
    have hsplit : c :: rest = (c :: rest).dropLast ++ [(c :: rest).getLast (by simp)] :=
      (List.dropLast_concat_getLast (by simp)).symm
    split
    · next hmarks =>
      rw [Bool.and_eq_true] at hmarks
      constructor
      · intro h
        exact .inr ⟨b, _, _, congrArg (b :: ·) hsplit, hmarks.1, h⟩
      · rintro (h | ⟨opening, inner, closing, heq, -, h⟩)
        · have := not_isQuotationMark h List.mem_cons_self
          rw [hmarks.1] at this
          cases this
        · rw [(List.cons.inj heq).2, List.dropLast_concat]
          exact h
    · next hmarks =>
      refine ⟨.inl, ?_⟩
      rintro (h | ⟨opening, inner, closing, heq, hopening, h⟩)
      · exact h
      · obtain ⟨rfl, hrest⟩ := List.cons.inj heq
        rw [hrest, List.dropLast_concat, hopening, Bool.true_and, Bool.not_eq_true, Bool.not_eq_false',
          List.any_eq_true] at hmarks
        obtain ⟨a, ha, hmark⟩ := hmarks
        rw [not_isQuotationMark h ha] at hmark
        cases hmark
  · next hshort =>
    refine ⟨.inl, ?_⟩
    rintro (h | ⟨opening, inner, closing, heq, -, h⟩)
    · exact h
    · have hlength := length_of_spells h
      obtain ⟨first, rest, rfl⟩ := List.exists_cons_of_length_pos (l := inner) (by omega)
      exact absurd heq (hshort _ _ _)

theorem standard_eq_integer_iff {declared : List UInt8} :
    (ofText declared).standard = some .integer ↔ IsInteger declared := by
  have hname (s : List UInt8) : (if 3 ≤ s.length then StandardType.ofName? s else .none) = some .integer ↔
      Octet.spells "integer" s = true := by
    split
    · exact ofName?_integer
    · next hshort =>
      refine ⟨nofun, fun h => ?_⟩
      rw [length_of_spells h] at hshort
      omega
  have hstandard : (ofText declared).standard =
      let s := if 3 ≤ (withoutGenerated declared).length then unquoteWhole (withoutGenerated declared)
        else withoutGenerated declared
      if 3 ≤ s.length then StandardType.ofName? s else .none := by
    unfold ofText
    simp only
    generalize (if 3 ≤ (withoutGenerated declared).length then unquoteWhole (withoutGenerated declared)
      else withoutGenerated declared) = s
    split
    · next t h => exact h.symm
    · next h =>
      rw [h]
      split <;> rfl
  rw [hstandard, hname, IsInteger, ← spells_unquoteWhole]
  split
  · rfl
  · next hshort =>
    -- neither a text of less than three octets nor what stands in marks there is as long as the word
    refine ⟨fun h => spells_unquoteWhole.mpr (.inl h), fun h => ?_⟩
    rcases spells_unquoteWhole.mp h with h | ⟨opening, inner, closing, heq, -, h⟩
    · exact h
    · rw [heq, List.length_cons, List.length_append, length_of_spells h] at hshort
      omega

end ColumnType
end FirstRow.Sql
