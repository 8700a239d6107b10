import FirstRow.Proofs.Sql.Definition

/-!
# Tables that were read

The clauses of a definition never change the name of a table nor its root, and where rows have no number the index of
the primary key gets the root of the table. `Draft.Of` is what every clause preserves, and `Draft.Rooted` is what the
last step makes of it.
-/
namespace FirstRow.Sql

/-! ## Indexes -/

/-- An index comes with its table. Other than that of the primary key, it is not rooted yet. -/
structure Index.IsOwn (ix : Index) : Prop where
  origin : ix.origin ≠ .statement
  root : ix.origin ≠ .primaryKey → ix.root = 0

theorem Table.mem_withIndexes {t : Table} {ixs : List Index} {ix : Index} : ix ∈ (t.withIndexes ixs).indexes ↔ ix ∈ ixs := by
  simp only [withIndexes, List.partition_eq_filter_filter, List.mem_append, List.mem_filter]
  by_cases h : ix.conflict = some .replace <;> simp [h]

namespace Draft

/-- A draft of the table with a name and a root. -/
structure Of (name : List UInt8) (root : Nat) (d : Draft) : Prop where
  name : d.table.name = name
  root : d.table.root = root
  own : ∀ ix ∈ d.table.indexes, ix.IsOwn

/-- Where rows have no number, the primary key is rooted where the table is. -/
def Rooted (d : Draft) : Prop :=
  d.table.withoutRowid = true → ∀ ix ∈ d.table.indexes, ix.origin = .primaryKey → ix.root = d.table.root

variable {name : List UInt8} {root : Nat} {d : Draft}

/-! ## Clauses -/

theorem Of.start (name : List UInt8) (root : Nat) (keepsChecks : Bool) (taken : List (List UInt8)) :
    (start name root keepsChecks taken).Of name root :=
  ⟨rfl, rfl, by simp [Draft.start]⟩

/-- What changes nothing but columns and notes. -/
theorem Of.same {e : Draft} (h : d.Of name root) (hname : e.table.name = d.table.name)
    (hroot : e.table.root = d.table.root) (hindexes : e.table.indexes = d.table.indexes) : e.Of name root :=
  ⟨hname.trans h.name, hroot.trans h.root, hindexes ▸ h.own⟩

theorem Of.noting (h : d.Of name root) (clashes : Bool) : Of name root { d with clashes } :=
  ⟨h.name, h.root, h.own⟩

theorem Of.modifyColumn (h : d.Of name root) (i : Nat) (f : Column → Column) : (d.modifyColumn i f).Of name root :=
  h.same rfl rfl rfl

theorem Of.withIndexes (h : d.Of name root) {ixs : List Index} (hixs : ∀ ix ∈ ixs, ix.IsOwn) :
    (d.withIndexes ixs).Of name root :=
  ⟨h.name, h.root, fun ix hix => hixs ix (Table.mem_withIndexes.mp hix)⟩

theorem Of.addColumn (h : d.Of name root) (column type : List UInt8) : (d.addColumn column type).1.Of name root := by
  unfold Draft.addColumn
  simp only
  split
  · exact h
  · split
    · exact h
    · exact h.same rfl rfl rfl

theorem Of.mergeIndex (h : d.Of name root) {ix : Index} (hix : ix.IsOwn) (conflict : Option Conflict)
    (origin : IndexOrigin) : (d.mergeIndex ix conflict origin).1.Of name root := by
  refine h.withIndexes fun other hmem => ?_
  obtain ⟨old, hold, rfl⟩ := List.mem_map.mp hmem
  split
  · refine ⟨?_, fun hne => ?_⟩
    · by_cases hkey : origin = .primaryKey
      · simp [hkey]
      · simpa [hkey] using hix.origin
    · by_cases hkey : origin = .primaryKey
      · simp [hkey] at hne
      · exact hix.root (by simpa [hkey] using hne)
  · exact h.own old hold

theorem Of.addIndex (h : d.Of name root) (key : List IndexColumn) (conflict : Option Conflict) {origin : IndexOrigin}
    (horigin : origin ≠ .statement) : (d.addIndex key conflict origin).1.Of name root := by
  unfold Draft.addIndex
  split
  · next ix hfind => exact h.mergeIndex (h.own ix (List.mem_of_find?_eq_some hfind)) conflict origin
  · simp only
    refine Of.withIndexes (h.noting _) fun ix hix => ?_
    rcases List.mem_cons.mp hix with rfl | hix
    · exact ⟨horigin, fun _ => rfl⟩
    · exact h.own ix hix

theorem Of.addKey (h : d.Of name root) (terms : List KeyTerm) (conflict : Option Conflict) {origin : IndexOrigin}
    (horigin : origin ≠ .statement) : (d.addKey terms conflict origin).1.Of name root := by
  unfold Draft.addKey
  split
  · exact h
  · split
    · exact h
    · split
      · exact h
      · exact h.addIndex _ conflict horigin

theorem Of.markKey (h : d.Of name root) (i : Nat) : (d.markKey i).1.Of name root :=
  h.modifyColumn i _

theorem Of.markKeys (h : d.Of name root) (columns : List Nat) : (d.markKeys columns).1.Of name root := by
  unfold Draft.markKeys
  generalize (none : Option String) = fault
  induction columns generalizing d fault with
  | nil => exact h
  | cons i rest ih => exact ih (h.markKey i) _

theorem Of.columnPrimaryKey (h : d.Of name root) (descending : Bool) (conflict : Option Conflict) (counts : Bool) :
    (d.columnPrimaryKey descending conflict counts).1.Of name root := by
  have hkey : Of name root { d with hasKey := true } := h.same rfl rfl rfl
  have hmark := hkey.markKey d.last
  unfold Draft.columnPrimaryKey
  split
  · exact h
  · simp only
    split
    · exact hmark.same rfl rfl rfl
    · split
      · exact hmark
      · split
        · exact hmark
        · exact hmark.addIndex _ conflict (by simp)

theorem Of.tablePrimaryKey (h : d.Of name root) (terms : List KeyTerm) (conflict : Option Conflict) (counts : Bool) :
    (d.tablePrimaryKey terms conflict counts).1.Of name root := by
  have hkey : Of name root { d with hasKey := true } := h.same rfl rfl rfl
  have hmark := hkey.markKeys (namedColumns d.table terms)
  unfold Draft.tablePrimaryKey
  split
  · exact h
  · simp only
    split
    · exact hmark.same rfl rfl rfl
    · split
      · exact hmark
      · split
        · exact hmark
        · exact hmark.addKey _ conflict (by simp)

theorem Of.setDefault (h : d.Of name root) (e : Expr) : (d.setDefault e).1.Of name root := by
  unfold Draft.setDefault
  simp only
  split
  · exact h
  · split
    · exact h
    · exact h.modifyColumn _ _

theorem Of.setGenerated (h : d.Of name root) (t : Term) (storage : Option (List UInt8)) :
    (d.setGenerated t storage).1.Of name root := by
  unfold Draft.setGenerated
  simp only
  split
  · split
    · exact h
    · have hcomputed : Of name root { d with computed := d.computed ++ [(d.last, computing t)] } := h.same rfl rfl rfl
      exact hcomputed.modifyColumn _ _
  · exact h

theorem Of.setCollation (h : d.Of name root) (collation : List UInt8) : (d.setCollation collation).Of name root := by
  refine Of.withIndexes (h.modifyColumn _ _) fun ix hix => ?_
  obtain ⟨old, hold, rfl⟩ := List.mem_map.mp hix
  have hown := h.own old hold
  exact ⟨hown.origin, hown.root⟩

theorem Of.insistOnTypes (h : d.Of name root) : d.insistOnTypes.1.Of name root := by
  unfold Draft.insistOnTypes
  split
  · exact h
  · exact h.same rfl rfl rfl

theorem Of.resolveComputed (h : d.Of name root) (f : Findings) : (d.resolveComputed f).1.Of name root := by
  unfold Draft.resolveComputed
  generalize d.computed = computed
  induction computed generalizing d f with
  | nil => exact h
  | cons it rest ih => exact ih (h.modifyColumn _ _) _

/-- Rooting the primary key leaves other indexes without a root. -/
theorem Of.rootKey (h : d.Of name root) (key columns extra : List IndexColumn) (held : List Nat) :
    let e : Draft := { d with
      table := { d.table with
        indexes := d.table.indexes.map fun ix =>
          if ix.origin = .primaryKey then { ix with key, columns, held, root := d.table.root } else ix.extend extra } }
    e.Of name root ∧ e.Rooted := by
  refine ⟨⟨h.name, h.root, fun ix hix => ?_⟩, fun _ ix hix hkey => ?_⟩
  · obtain ⟨old, hold, rfl⟩ := List.mem_map.mp hix
    have hown := h.own old hold
    split
    · next horigin => exact ⟨hown.origin, fun hne => absurd horigin hne⟩
    · exact ⟨hown.origin, hown.root⟩
  · obtain ⟨old, hold, rfl⟩ := List.mem_map.mp hix
    split at hkey
    · next horigin => simp only [horigin, if_true]
    · next horigin => exact absurd hkey horigin

theorem dropRowids_spec (h : d.Of name root) (pending : Option String) :
    (d.dropRowids pending).1.Of name root ∧ (d.dropRowids pending).1.Rooted := by
  have hcolumns : Of name root { d with
      table := { d.table with
        columns := d.table.columns.map fun c => { c with notNull := c.notNull || c.inKey }, rowidColumn := none } } :=
    h.same rfl rfl rfl
  unfold Draft.dropRowids
  simp only
  split
  · exact (hcolumns.addIndex _ _ (by simp)).rootKey _ _ _ _
  · exact hcolumns.rootKey _ _ _ _

/-- Looking up names in computed columns leaves roots as they are. -/
theorem Rooted.resolveComputed (h : d.Rooted) (f : Findings) : (d.resolveComputed f).1.Rooted := by
  unfold Draft.resolveComputed
  generalize d.computed = computed
  induction computed generalizing d f with
  | nil => exact h
  | cons it rest ih => exact ih (d := d.modifyColumn _ _) h _

/-- The last step keeps the name and the root, and without a fault it roots the primary key. -/
theorem finish_spec (h : d.Of name root) (pending : Option String) :
    (d.finish pending).1.Of name root ∧ ((d.finish pending).2 = none → (d.finish pending).1.Rooted) := by
  have hstrict : (if d.strict then d.insistOnTypes else (d, none)).1.Of name root := by
    split
    · exact h.insistOnTypes
    · exact h
  unfold Draft.finish
  simp only
  generalize (if d.strict then d.insistOnTypes else (d, none)) = step at hstrict
  obtain ⟨e, fault⟩ := step
  simp only at hstrict ⊢
  split
  · next hfault =>
    refine ⟨hstrict, fun hnone => ?_⟩
    rw [show fault = none from hnone] at hfault
    cases hfault
  · split
    · exact ⟨hstrict, fun hnone => by cases hnone⟩
    · split
      · exact ⟨hstrict, fun hnone => by cases hnone⟩
      · have hdrop : (if e.table.withoutRowid then e.dropRowids pending else (e, pending)).1.Of name root ∧
            (if e.table.withoutRowid then e.dropRowids pending else (e, pending)).1.Rooted := by
          split
          · exact dropRowids_spec hstrict pending
          · next hrows => exact ⟨hstrict, fun hwithout => absurd hwithout hrows⟩
        generalize (if e.table.withoutRowid then e.dropRowids pending else (e, pending)) = step at hdrop
        have hcomputed := hdrop.1.resolveComputed (step.1.table.resolveTerms .check ⟨step.2, false⟩ step.1.checks)
        have hrooted := hdrop.2.resolveComputed (step.1.table.resolveTerms .check ⟨step.2, false⟩ step.1.checks)
        split
        · exact ⟨hcomputed, fun hnone => by cases hnone⟩
        · exact ⟨hcomputed, fun _ => hrooted⟩

theorem Of.apply (h : d.Of name root) (pending : Option String) (clause : Clause) :
    (d.apply pending clause).1.Of name root := by
  cases clause with
  | inert | unknownOption | finishQuery => exact h
  | column c t => exact h.addColumn c t
  | notNull => exact h.modifyColumn _ _
  | default t => exact h.setDefault t.expr
  | primaryKey descending conflict counts => exact h.columnPrimaryKey descending conflict counts
  | unique conflict => exact h.addIndex _ conflict (by simp)
  | check t =>
    unfold Draft.apply
    simp only
    split
    · exact h.same rfl rfl rfl
    · exact h
  | collate collation => exact h.setCollation collation
  | generated t storage => exact h.setGenerated t storage
  | references table columns =>
    unfold Draft.apply Draft.reference
    simp only
    split <;> exact h
  | tablePrimaryKey terms conflict counts => exact h.tablePrimaryKey terms conflict counts
  | tableUnique terms conflict => exact h.addKey terms conflict (by simp)
  | foreignKey own columns =>
    unfold Draft.apply Draft.foreignKey
    simp only
    split
    · exact h
    · split <;> exact h
  | withoutRowid | strict => exact h.same rfl rfl rfl
  | finish => exact (finish_spec h pending).1

/-! ## Definitions -/

/-- What is built of a draft keeps its name and its root, and its primary key is rooted. -/
theorem Built.of {ks : List Clause} {d? r : Option Draft} (h : Built ks d? r) (hd : ∀ d ∈ d?, d.Of name root) :
    ∀ e ∈ r, e.Of name root ∧ e.Rooted := by
  intro e he
  cases h with
  | nothing => cases he
  | table hfollows hfinish =>
    cases he
    have hclauses := hfollows.induction (P := fun _ d => d.Of name root) (hd _ rfl) fun _ d k d' hof _ happly => by
      have hnext := hof.apply none k
      rwa [happly] at hnext
    have hlast := finish_spec hclauses none
    rw [hfinish] at hlast
    exact ⟨hlast.1, hlast.2 rfl⟩

end Draft
end FirstRow.Sql
