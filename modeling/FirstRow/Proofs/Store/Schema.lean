import FirstRow.Proofs.Store.Catalog
import FirstRow.Proofs.Store.Record
import FirstRow.Proofs.Store.Tree

/-!
# Schemas read back

The table at the first page describes the objects of a database, one by an entry. The catalog that is read is the one
that its entries build in their order.
-/
namespace FirstRow.Store

/-- What an entry of the schema says. Fields that its record lacks are null. -/
def Entry.description (img : Image) (x : Entry) : SchemaEntry :=
  let text (k : Nat) : Option (List UInt8) := (x.value? img .table k).bind (SchemaEntry.textOf img.encoding)
  ⟨text 0, text 1, text 2, text 3, text 4⟩

variable {img : Image}

/-- The text of a field. There is none where there is no field. -/
def SchemaEntry.fieldText (img : Image) (c : Cell) : Option Field → ChainReader (Option (List UInt8))
  | none => return none
  | some f => return textOf img.encoding (← Record.value img .table c f)

/-- What a cell of the schema says is read. -/
theorem SchemaEntry.ofCell_eq (hp : img.Proper) (hm : img.isMapped = true → img.Mapped) {x : Entry} {c : Cell}
    (h : x.IsAt img .table c) : (ofCell img c).run' #[] = .ok (x.description img) := by
  obtain ⟨hrecord, n, i, pages, rfl, hstores⟩ := h
  have hfield {k : Nat} (hk : k < 5) :
      Gives pages (monadLift ((x.layout 5).field? k) >>= fieldText img (x.cell img n i))
        ((x.value? img .table k).bind (textOf img.encoding)) := by
    refine (Gives.lift (Record.field?_eq x hk)).bind ?_
    unfold Entry.value?
    cases hget : x.contents[k]? with
    | none => exact Gives.pure none
    | some c => exact (Record.value_gives hstores hp hm hrecord hget).bind (Gives.pure _)
  refine Gives.run' ((Record.layout_gives hstores hp hm hrecord 5).bind ?_)
  refine (hfield (by omega)).bind ((hfield (by omega)).bind ((hfield (by omega)).bind ?_))
  exact (hfield (by omega)).bind ((hfield (by omega)).bind (Gives.pure _))

namespace Catalog

/-- The cells of a schema give the catalog that its entries build. -/
theorem foldlM_eq (hp : img.Proper) (hm : img.isMapped = true → img.Mapped) {xs : List Entry} {cells : List Cell}
    (hcells : List.Forall₂ (Entry.IsAt img .table) xs cells) {before after : Catalog}
    (h : Builds img before (xs.map (Entry.description img)) after) :
    cells.foldlM (Sum.addCell img) ⟨before, none⟩ = .ok ⟨after, none⟩ := by
  induction hcells generalizing before with
  | nil =>
    cases h
    rfl
  | @cons x c xs cells hcell _ ih =>
    cases h with
    | @cons _ next _ _ _ hadd hrest =>
      have hstep : Sum.addCell img ⟨before, none⟩ c = .ok ⟨next, none⟩ := by
        simp only [Sum.addCell, SchemaEntry.ofCell_eq hp hm hcell, hadd]
      rw [List.foldlM_cons, hstep]
      exact ih hrest

/-- The catalog of a database is the one that the entries of its schema build. -/
theorem ofImage_eq (hp : img.Proper) (hm : img.isMapped = true → img.Mapped)
    (hformat : img.schemaFormat ≤ Header.newestSchemaFormat) {levels : Nat} (hlevels : levels ≤ Walk.maxDescents)
    {xs : List Entry} (hschema : Tree img .table levels 1 xs) {cat : Catalog}
    (h : Builds img (Sum.initial img).catalog (xs.map (Entry.description img)) cat) : ofImage img = .ok cat := by
  obtain ⟨cells, hwalk, hcells⟩ := Walk.schema_eq hp hschema hlevels
  unfold ofImage
  rw [if_neg (by omega), hwalk]
  simp only [Sum.initial]
  have hfold := foldlM_eq hp hm hcells h
  simp only [Sum.initial] at hfold
  rw [hfold]
  rfl

end Catalog
end FirstRow.Store
