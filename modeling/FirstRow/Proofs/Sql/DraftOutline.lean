import FirstRow.Proofs.Sql.Clauses
import FirstRow.Proofs.Sql.Keys

/-!
# Outlines of drafts

The outline of a table leaves out how the types and the values of its columns are spelled, and so does that of a draft.
What a clause makes of a draft has the outline of what an alike clause makes of any other draft of the same outline, and
either both clauses are at fault or none is. Names are looked up only in the last steps, when all columns are there.
-/
namespace FirstRow.Sql

open Text.Octet (fold)

variable (names : List (List UInt8))

/-! ## Columns and tables -/

/-- A column apart from how its type and its value are spelled. -/
def Column.outline (c : Column) : Column :=
  { c with type := c.type.outline, value := c.value.map (Expr.outline names) }

/-- A table apart from how the types and values of its columns are spelled. -/
def Table.outline (t : Table) : Table :=
  { t with columns := t.columns.map (Column.outline names) }

variable {names}

@[simp] theorem ColumnType.outline_outline (t : ColumnType) : t.outline.outline = t.outline := rfl

@[simp] theorem ColumnType.standard_outline (t : ColumnType) : t.outline.standard = t.standard := rfl

namespace Column

variable (c : Column)

@[simp] theorem name_outline : (c.outline names).name = c.name := rfl

@[simp] theorem type_outline : (c.outline names).type = c.type.outline := rfl

@[simp] theorem value_outline : (c.outline names).value = c.value.map (Expr.outline names) := rfl

@[simp] theorem generation_outline : (c.outline names).generation = c.generation := rfl

@[simp] theorem inKey_outline : (c.outline names).inKey = c.inKey := rfl

@[simp] theorem notNull_outline : (c.outline names).notNull = c.notNull := rfl

@[simp] theorem order_outline : (c.outline names).order = c.order := rfl

@[simp] theorem isStored_outline : (c.outline names).isStored = c.isStored := rfl

@[simp] theorem outline_outline : (c.outline names).outline names = c.outline names := by
  simp only [outline, ColumnType.outline_outline, Option.map_map, Column.mk.injEq, true_and, and_true]
  exact congrArg (Option.map · _) (funext Expr.outline_outline)

@[simp] theorem missing_outline (enc : Store.Encoding) : (c.outline names).missing enc = c.missing enc := by
  unfold missing
  rw [value_outline]
  cases c.value with
  | none => rfl
  | some e => exact (defaultValue_eq_of_outline (Expr.outline_outline e) enc _)

end Column

namespace Table

variable (t : Table)

@[simp] theorem columns_outline : (t.outline names).columns = t.columns.map (Column.outline names) := rfl

@[simp] theorem name_outline : (t.outline names).name = t.name := rfl

@[simp] theorem root_outline : (t.outline names).root = t.root := rfl

@[simp] theorem rowidColumn_outline : (t.outline names).rowidColumn = t.rowidColumn := rfl

@[simp] theorem withoutRowid_outline : (t.outline names).withoutRowid = t.withoutRowid := rfl

@[simp] theorem indexes_outline : (t.outline names).indexes = t.indexes := rfl

@[simp] theorem withIndexes_outline (ixs : List Index) : (t.outline names).withIndexes ixs = (t.withIndexes ixs).outline names :=
  rfl

@[simp] theorem outline_outline : (t.outline names).outline names = t.outline names := by
  simp only [outline, List.map_map, Table.mk.injEq, true_and, and_true]
  exact congrArg (List.map · _) (funext Column.outline_outline)

/-- What is known of a column apart from its spelling is known of its outline. -/
theorem map_columns_outline {α : Type} {f : Column → α} (hf : ∀ c : Column, f (c.outline names) = f c) (i : Nat) :
    (t.columns.map (Column.outline names))[i]?.map f = t.columns[i]?.map f := by
  rw [List.getElem?_map, Option.map_map]
  exact congrArg (Option.map · _) (funext hf)

theorem bind_columns_outline {α : Type} {f : Column → Option α} (hf : ∀ c : Column, f (c.outline names) = f c) (i : Nat) :
    (t.columns.map (Column.outline names))[i]?.bind f = t.columns[i]?.bind f := by
  rw [List.getElem?_map, Option.bind_map]
  exact congrArg (Option.bind _) (funext hf)

theorem looksLike_outline : (t.outline names).LooksLike t where
  column? n := by
    simp only [column?, columns_outline, List.findIdx?_map]
    rfl
  isNullable i := by
    cases i with
    | none => rfl
    | some i =>
      simp only [isNullable, columns_outline, List.getElem?_map, Option.any_map]
      rfl
  isNamed _ := rfl
  withoutRowid := rfl

@[simp] theorem column?_outline (n : List UInt8) : (t.outline names).column? n = t.column? n :=
  t.looksLike_outline.column? n

@[simp] theorem resolveTerm_outline (place : Place) (f : Findings) (term : Term) :
    (t.outline names).resolveTerm place f term = t.resolveTerm place f term := by
  simp only [resolveTerm, t.looksLike_outline.resolve]

@[simp] theorem indexColumn_outline (f : Findings) (k : KeyTerm) :
    (t.outline names).indexColumn f k = t.indexColumn f k := by
  have horder (i : Option Nat) : (i.bind fun i => (t.outline names).columns[i]?).map Column.order =
      (i.bind fun i => t.columns[i]?).map Column.order := by
    cases i with
    | none => rfl
    | some i => exact t.map_columns_outline (f := Column.order) (fun _ => rfl) i
  unfold indexColumn
  simp only [resolveTerm_outline, horder]

end Table

/-! ## Drafts -/

/-- A term apart from how it is spelled. -/
def Term.outline (names : List (List UInt8)) (t : Term) : Term :=
  { t with expr := t.expr.outline names, foreign := none }

@[simp] theorem Term.outline_outline (t : Term) : (t.outline names).outline names = t.outline names := by
  simp [outline]

theorem Term.outline_eq_iff {t t' : Term} : t.outline names = t'.outline names ↔ t.Alike names t' := by
  simp only [outline, Term.mk.injEq, and_true]
  exact ⟨fun h => ⟨h.1, h.2.1, h.2.2⟩, fun h => ⟨h.expr, h.height, h.inside⟩⟩

namespace Draft

/-- A draft apart from how its text is spelled. -/
def outline (names : List (List UInt8)) (d : Draft) : Draft :=
  { d with
    table := d.table.outline names
    checks := d.checks.map (Term.outline names)
    computed := d.computed.map fun p => (p.1, p.2.outline names) }

/-- What a clause made of a draft, apart from how the text is spelled. -/
def Step.outline (names : List (List UInt8)) (x : Step) : Step := (x.1.outline names, x.2)

/-- Two clauses made the same of two drafts, apart from how the text is spelled and what faults say. -/
structure Step.Alike (names : List (List UInt8)) (x y : Step) : Prop where
  draft : x.1.outline names = y.1.outline names
  fault : x.2.isSome = y.2.isSome

variable {names : List (List UInt8)} {d d' : Draft}

/-- What does not depend on how a text is spelled is the same of drafts of one outline. -/
theorem congr_outline {α : Type} {f : Draft → α} (hf : ∀ d : Draft, f (d.outline names) = f d)
    (h : d.outline names = d'.outline names) : f d = f d' := by
  rw [← hf d, h, hf]

theorem Step.Alike.of_eq {x y : Step} (h : x.outline names = y.outline names) : x.Alike names y := by
  obtain ⟨hdraft, hfault⟩ := Prod.mk.inj h
  exact ⟨hdraft, congrArg Option.isSome hfault⟩

namespace Step.Alike

variable {x y z : Step}

theorem symm (h : x.Alike names y) : y.Alike names x := ⟨h.draft.symm, h.fault.symm⟩

theorem trans (h : x.Alike names y) (h' : y.Alike names z) : x.Alike names z :=
  ⟨h.draft.trans h'.draft, h.fault.trans h'.fault⟩

end Step.Alike

section

variable (d : Draft)

@[simp] theorem outline_outline : (d.outline names).outline names = d.outline names := by
  simp [outline, Function.comp_def]

@[simp] theorem table_outline : (d.outline names).table = d.table.outline names := rfl

@[simp] theorem hasKey_outline : (d.outline names).hasKey = d.hasKey := rfl

@[simp] theorem title_outline : (d.outline names).title = d.title := rfl

@[simp] theorem last_outline : (d.outline names).last = d.last := by
  simp [last]

@[simp] theorem lastTitle_outline : (d.outline names).lastTitle = d.lastTitle := by
  unfold lastTitle
  rw [table_outline, Table.columns_outline, List.getLast?_map]
  cases d.table.columns.getLast? <;> rfl

@[simp] theorem secondKey_outline : (d.outline names).secondKey = d.secondKey := rfl

@[simp] theorem columnKey_outline (i : Nat) : (d.outline names).columnKey i = d.columnKey i := by
  simp only [columnKey, table_outline, Table.columns_outline, Table.map_columns_outline (f := Column.order) _ fun _ => rfl]

@[simp] theorem isRowid_outline (i : Nat) : (d.outline names).isRowid i = d.isRowid i := by
  simp only [isRowid, table_outline, Table.columns_outline,
    Table.map_columns_outline (f := fun c => decide (c.type.standard = some .integer)) _ fun _ => rfl]

variable (names) in
/-- A change of a column that does not depend on how it is spelled. -/
theorem modifyColumn_outline {f g : Column → Column} (hf : ∀ c : Column, g (c.outline names) = (f c).outline names)
    (i : Nat) : (d.outline names).modifyColumn i g = (d.modifyColumn i f).outline names := by
  have hcolumns : (d.table.columns.map (Column.outline names)).modify i g =
      (d.table.columns.modify i f).map (Column.outline names) := by
    refine List.ext_getElem? fun j => ?_
    simp only [List.getElem?_modify, List.getElem?_map, Option.map_eq_map, Option.map_map]
    congr 1
    funext c
    simp only [Function.comp_apply]
    split
    · exact hf c
    · rfl
  simp only [modifyColumn, outline, Table.outline, hcolumns]

@[simp] theorem withIndexes_outline (ixs : List Index) : (d.outline names).withIndexes ixs = (d.withIndexes ixs).outline names :=
  rfl

@[simp] theorem addIndex_outline (key : List IndexColumn) (conflict : Option Conflict) (origin : IndexOrigin) :
    (d.outline names).addIndex key conflict origin = Step.outline names (d.addIndex key conflict origin) := by
  unfold addIndex
  simp only [table_outline, Table.indexes_outline]
  split <;> rfl

@[simp] theorem markKey_outline (i : Nat) : (d.outline names).markKey i = Step.outline names (d.markKey i) := by
  have hmodify := d.modifyColumn_outline names (f := fun c => { c with inKey := true })
    (g := fun c => { c with inKey := true }) (fun _ => rfl) i
  simp only [markKey, hmodify, table_outline, Table.columns_outline,
    Table.bind_columns_outline (f := Column.generation) _ fun _ => rfl]
  rfl

@[simp] theorem markKeys_outline (columns : List Nat) :
    (d.outline names).markKeys columns = Step.outline names (d.markKeys columns) := by
  unfold markKeys
  generalize (none : Option String) = fault
  induction columns generalizing d fault with
  | nil => rfl
  | cons i rest ih =>
    simp only [List.foldl_cons, markKey_outline]
    exact ih _ _

theorem columnPrimaryKey_outline (descending : Bool) (conflict : Option Conflict) (counts : Bool) :
    (d.outline names).columnPrimaryKey descending conflict counts =
      Step.outline names (d.columnPrimaryKey descending conflict counts) := by
  have hmark : ({ d.outline names with hasKey := true } : Draft).markKey d.last =
      Step.outline names (({ d with hasKey := true } : Draft).markKey d.last) :=
    markKey_outline { d with hasKey := true } d.last
  unfold columnPrimaryKey
  simp only [hasKey_outline, last_outline, hmark]
  generalize ({ d with hasKey := true } : Draft).markKey d.last = step
  obtain ⟨marked, fault⟩ := step
  simp only [Step.outline, last_outline, isRowid_outline, columnKey_outline, addIndex_outline]
  split
  · rfl
  split
  · rfl
  split
  · rfl
  cases fault <;> rfl

theorem setCollation_outline (collation : List UInt8) :
    (d.outline names).setCollation collation = (d.setCollation collation).outline names := by
  have hmodify := d.modifyColumn_outline names (f := fun c => { c with collation := some collation })
    (g := fun c => { c with collation := some collation }) (fun _ => rfl) d.last
  simp only [setCollation, last_outline, hmodify]
  rfl

theorem foreignKey_outline (own : List (List UInt8)) (columns : Option Nat) :
    (d.outline names).foreignKey own columns = Step.outline names (d.foreignKey own columns) := by
  unfold foreignKey
  simp only [table_outline, Table.column?_outline]
  split
  · rfl
  · split <;> rfl

theorem setDefault_outline (e : Expr) :
    (d.outline names).setDefault (e.outline names) = Step.outline names (d.setDefault e) := by
  have hmodify := d.modifyColumn_outline names (f := fun c => { c with value := some e })
    (g := fun c => { c with value := some (e.outline names) }) (fun _ => rfl) d.last
  have hgeneration : ((d.table.columns.map (Column.outline names)).getLast?.bind Column.generation) =
      d.table.columns.getLast?.bind Column.generation := by
    rw [List.getLast?_map, Option.bind_map]
    rfl
  unfold setDefault
  simp only [lastTitle_outline, last_outline, table_outline, Table.columns_outline, Expr.isConstant_outline, hmodify,
    hgeneration]
  split
  · rfl
  · split <;> rfl

theorem computing_outline (t : Term) : computing (t.outline names) = (computing t).outline names := by
  unfold computing Term.outline
  cases hexpr : t.expr <;> simp [Expr.outline, hexpr]

theorem generationOf?_congr {storage storage' : Option (List UInt8)} (h : storage.map fold = storage'.map fold) :
    generationOf? storage = generationOf? storage' := by
  cases storage with
  | none =>
    cases storage' with
    | none => rfl
    | some w => cases h
  | some w =>
    cases storage' with
    | none => cases h
    | some w' =>
      have hfold : fold w = fold w' := Option.some.inj h
      simp only [generationOf?, ← Text.Octet.spells_fold _ w, hfold, Text.Octet.spells_fold]

theorem setGenerated_outline (t : Term) (storage : Option (List UInt8)) :
    (d.outline names).setGenerated (t.outline names) storage = Step.outline names (d.setGenerated t storage) := by
  have hmodify (e : Draft) (g : Generation) :=
    e.modifyColumn_outline names
      (f := fun c => { c with value := some (computing t).expr, generation := some g })
      (g := fun c => { c with value := some ((computing t).outline names).expr, generation := some g }) (fun _ => rfl) e.last
  have hvalue : ((d.table.columns.map (Column.outline names)).getLast?.bind Column.value).isSome =
      (d.table.columns.getLast?.bind Column.value).isSome := by
    rw [List.getLast?_map]
    cases d.table.columns.getLast? <;> simp
  have hkey : (d.table.columns.map (Column.outline names)).getLast?.map Column.inKey =
      d.table.columns.getLast?.map Column.inKey := by
    rw [List.getLast?_map, Option.map_map]
    rfl
  unfold setGenerated
  simp only [lastTitle_outline, table_outline, Table.columns_outline, hvalue, hkey, computing_outline]
  split
  · next g _ =>
    split
    · rfl
    · have hmodify := hmodify { d with computed := d.computed ++ [(d.last, computing t)] } g
      refine Prod.ext (Eq.trans ?_ hmodify) rfl
      simp [outline, last]
  · rfl

end

/-! ## Names of columns -/

end Draft

namespace Table

/-- The names of the columns. -/
def columnNames (t : Table) : List (List UInt8) := t.columns.map Column.name

/-- Columns are found by their names alone. -/
theorem column?_of_names {t u : Table} (h : t.columnNames = u.columnNames) (n : List UInt8) : t.column? n = u.column? n := by
  have hfind (t : Table) : t.column? n = t.columnNames.findIdx? (Text.Octet.same · n) := by
    simp only [column?, columnNames, List.findIdx?_map]
    rfl
  rw [hfind, hfind, h]

theorem HasNames.congr {t u : Table} (h : t.HasNames names) (hnames : t.columnNames = u.columnNames) : u.HasNames names :=
  fun n hn => column?_of_names hnames n ▸ h n hn

@[simp] theorem columnNames_outline (t : Table) : (t.outline names).columnNames = t.columnNames := by
  simp only [Table.columnNames, columns_outline, List.map_map]
  rfl

theorem columnNames_of_core {d d' : Draft} (h : d.core = d'.core) : d.table.columnNames = d'.table.columnNames :=
  congrArg (List.map Column.name) (congrArg Draft.Core.columns h)

end Table

namespace Draft

variable {names : List (List UInt8)} {d d' : Draft}

@[simp] theorem columnNames_modifyColumn (d : Draft) (i : Nat) {f : Column → Column} (hf : ∀ c, (f c).name = c.name) :
    (d.modifyColumn i f).table.columnNames = d.table.columnNames := by
  refine List.ext_getElem? fun j => ?_
  simp only [Table.columnNames, modifyColumn, List.getElem?_map, List.getElem?_modify]
  cases d.table.columns[j]? with
  | none => rfl
  | some c =>
    simp only [Option.map_eq_map, Option.map_some]
    split
    · rw [hf]
    · rfl

@[simp] theorem columnNames_markKey (d : Draft) (i : Nat) : (d.markKey i).1.table.columnNames = d.table.columnNames :=
  d.columnNames_modifyColumn i fun _ => rfl

@[simp] theorem columnNames_markKeys (d : Draft) (columns : List Nat) : (d.markKeys columns).1.table.columnNames = d.table.columnNames := by
  unfold markKeys
  generalize (none : Option String) = fault
  induction columns generalizing d fault with
  | nil => rfl
  | cons i rest ih => exact (ih _ _).trans (d.columnNames_markKey i)

theorem columnNames_columnPrimaryKey (d : Draft) (descending : Bool) (conflict : Option Conflict) (counts : Bool) :
    (d.columnPrimaryKey descending conflict counts).1.table.columnNames = d.table.columnNames := by
  have hmark : (({ d with hasKey := true } : Draft).markKey d.last).1.table.columnNames = d.table.columnNames :=
    columnNames_markKey { d with hasKey := true } d.last
  unfold columnPrimaryKey
  split
  · rfl
  · simp only
    split
    · exact hmark
    · split
      · exact hmark
      · split
        · exact hmark
        · exact (Table.columnNames_of_core (core_addIndex ..)).trans hmark

theorem columnNames_tablePrimaryKey (d : Draft) (terms : List KeyTerm) (conflict : Option Conflict) (counts : Bool) :
    (d.tablePrimaryKey terms conflict counts).1.table.columnNames = d.table.columnNames := by
  have hmark : (({ d with hasKey := true } : Draft).markKeys (namedColumns d.table terms)).1.table.columnNames =
      d.table.columnNames := columnNames_markKeys { d with hasKey := true } _
  unfold tablePrimaryKey
  split
  · rfl
  · simp only
    split
    · exact hmark
    · split
      · exact hmark
      · split
        · exact hmark
        · exact (Table.columnNames_of_core (core_addKey ..)).trans hmark

theorem columnNames_setDefault (d : Draft) (e : Expr) : (d.setDefault e).1.table.columnNames = d.table.columnNames := by
  unfold setDefault
  simp only
  split
  · rfl
  · split
    · rfl
    · exact d.columnNames_modifyColumn _ fun _ => rfl

theorem columnNames_setGenerated (d : Draft) (t : Term) (storage : Option (List UInt8)) :
    (d.setGenerated t storage).1.table.columnNames = d.table.columnNames := by
  unfold setGenerated
  simp only
  split
  · split
    · rfl
    · exact columnNames_modifyColumn _ _ fun _ => rfl
  · rfl

theorem columnNames_insistOnTypes (d : Draft) : d.insistOnTypes.1.table.columnNames = d.table.columnNames := by
  unfold insistOnTypes
  split
  · rfl
  · refine List.ext_getElem? fun i => ?_
    simp only [Table.columnNames, List.getElem?_map, List.getElem?_mapIdx]
    cases d.table.columns[i]? <;> rfl

theorem columnNames_dropRowids (d : Draft) (pending : Option String) :
    (d.dropRowids pending).1.table.columnNames = d.table.columnNames := by
  unfold dropRowids
  have hnotNull : Table.columnNames { d.table with
      columns := d.table.columns.map fun c => { c with notNull := c.notNull || c.inKey }, rowidColumn := none } =
      d.table.columnNames := by
    simp only [Table.columnNames, List.map_map]
    rfl
  simp only
  split
  · exact (Table.columnNames_of_core (core_addIndex ..)).trans hnotNull
  · exact hnotNull

theorem columnNames_lookUp (x : Draft × Findings) (p : Nat × Term) :
    (lookUp x p).1.table.columnNames = x.1.table.columnNames :=
  columnNames_modifyColumn x.1 p.1 fun _ => rfl

theorem columnNames_resolveComputed (d : Draft) (f : Findings) :
    (d.resolveComputed f).1.table.columnNames = d.table.columnNames := by
  change (d.computed.foldl lookUp (d, f)).1.table.columnNames = _
  generalize d.computed = ps
  generalize hx : (d, f) = x
  obtain rfl : d = x.1 := congrArg Prod.fst hx
  clear hx
  induction ps generalizing x with
  | nil => rfl
  | cons p rest ih => exact (ih (lookUp x p)).trans (columnNames_lookUp x p)

theorem columnNames_finish (d : Draft) (pending : Option String) : (d.finish pending).1.table.columnNames = d.table.columnNames := by
  have hinsist : (if d.strict then d.insistOnTypes else (d, none)).1.table.columnNames = d.table.columnNames := by
    split
    · exact d.columnNames_insistOnTypes
    · rfl
  unfold finish
  simp only
  generalize (if d.strict then d.insistOnTypes else (d, none)) = step at hinsist
  obtain ⟨e, fault⟩ := step
  have hdrop : (if e.table.withoutRowid then e.dropRowids pending else (e, pending)).1.table.columnNames = d.table.columnNames := by
    split
    · exact (e.columnNames_dropRowids pending).trans hinsist
    · exact hinsist
  simp only
  split
  · exact hinsist
  split
  · exact hinsist
  split
  · exact hinsist
  generalize (if e.table.withoutRowid then e.dropRowids pending else (e, pending)) = dropped at hdrop
  split <;> exact (columnNames_resolveComputed _ _).trans hdrop

/-- Only a clause with a column changes the names of columns. -/
theorem columnNames_apply (d : Draft) (pending : Option String) {k : Clause} (hk : ∀ name type, k ≠ .column name type) :
    (d.apply pending k).1.table.columnNames = d.table.columnNames := by
  cases k with
  | column name type => exact absurd rfl (hk name type)
  | notNull => exact d.columnNames_modifyColumn _ fun _ => rfl
  | default t => exact d.columnNames_setDefault t.expr
  | primaryKey descending conflict counts => exact d.columnNames_columnPrimaryKey descending conflict counts
  | unique conflict => exact Table.columnNames_of_core (core_addIndex ..)
  | check t =>
    simp only [apply]
    split <;> rfl
  | collate collation => exact d.columnNames_modifyColumn _ fun _ => rfl
  | generated t storage => exact d.columnNames_setGenerated t storage
  | references table columns =>
    simp only [apply, reference]
    split <;> rfl
  | tablePrimaryKey terms conflict counts => exact d.columnNames_tablePrimaryKey terms conflict counts
  | tableUnique terms conflict => exact Table.columnNames_of_core (core_addKey ..)
  | foreignKey own columns =>
    simp only [apply, foreignKey]
    split
    · rfl
    · split <;> rfl
  | finish => exact d.columnNames_finish pending
  | inert | withoutRowid | strict | unknownOption | finishQuery => rfl

end Draft
end FirstRow.Sql
