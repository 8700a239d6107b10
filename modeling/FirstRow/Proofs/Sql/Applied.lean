import FirstRow.Proofs.Sql.DraftOutline

/-!
# Clauses applied to two drafts

Clauses that are alike make drafts of one outline of drafts of one outline. Terms that name columns, and expressions
whose names are looked up, are alike only in a table that has these columns; `Clause.Looks` says which clauses have them.
-/
namespace FirstRow.Sql

open Text.Octet (fold)

variable {names : List (List UInt8)}

namespace Expr

/-- The name that an expression is. -/
def name? : Expr → Option (List UInt8)
  | .name n => some n.text
  | _ => none

/-- The column that an expression is. -/
def column? : Expr → Option (Option Nat)
  | .column i => some i
  | _ => none

@[simp] theorem column?_outline (e : Expr) : (e.outline names).column? = e.column? := by
  cases e <;> simp [outline, column?]

end Expr

/-! ## Findings -/

/-- What was found so far is the same apart from what the fault says. -/
structure Findings.Alike (f f' : Findings) : Prop where
  fault : f.fault.isSome = f'.fault.isSome
  tooHigh : f.tooHigh = f'.tooHigh

namespace Table

variable {t : Table}

/-- Names are looked up alike in terms of one outline. -/
theorem resolveTerm_congr (place : Place) (h : t.HasNames names) {f f' : Findings} (hf : f.Alike f') {k k' : Term}
    (hexpr : k.expr.outline names = k'.expr.outline names) (hheight : k.height = k'.height) :
    (t.resolveTerm place f k).1.Alike (t.resolveTerm place f' k').1 ∧
      (t.resolveTerm place f k).2.outline names = (t.resolveTerm place f' k').2.outline names := by
  unfold resolveTerm
  rw [hf.tooHigh, hheight]
  split
  · exact ⟨⟨rfl, rfl⟩, hexpr⟩
  · have hresolved : (t.resolve place f.fault k.expr).Alike (Expr.outline names)
        (t.resolve place f'.fault k'.expr) := resolve_congr h hexpr hf.fault
    exact ⟨⟨hresolved.fault, rfl⟩, hresolved.result⟩

theorem resolveTerms_congr (place : Place) (h : t.HasNames names) {ts ts' : List Term} (hts : List.Forall₂ (Term.Alike names) ts ts')
    {f f' : Findings} (hf : f.Alike f') : (t.resolveTerms place f ts).Alike (t.resolveTerms place f' ts') := by
  induction hts generalizing f f' with
  | nil => exact hf
  | cons hterm _ ih =>
    obtain ⟨hfound, -⟩ := resolveTerm_congr place h hf hterm.expr hterm.height
    simp only [resolveTerms]
    rw [hfound.fault]
    split
    · exact hfound
    · exact ih hfound

/-- The column of an index is what its term is found to be, whatever collations are around it. -/
theorem indexColumn_eq (t : Table) (f : Findings) (k : KeyTerm) :
    t.indexColumn f k =
      let found := t.resolveTerm .key f (k.map Expr.keyAsName).term
      let column := found.2.withoutCollation.column?.getD none
      match found.1.fault with
      | some m => .error m
      | none => .ok ⟨column, found.2.collation?.getD
          (((column.bind fun i => t.columns[i]?).map Column.order).getD (Text.Utf8.ofString "BINARY"))⟩ := by
  unfold indexColumn
  simp only
  cases (t.resolveTerm .key f (k.map Expr.keyAsName).term).2.withoutCollation <;> rfl

/-- The column of an index does not depend on how its term is spelled. -/
theorem indexColumn_congr (h : t.HasNames names) {f : Findings} {k k' : KeyTerm}
    (hexpr : k.term.expr.keyAsName.outline names = k'.term.expr.keyAsName.outline names)
    (hheight : k.term.height = k'.term.height) :
    (t.indexColumn f k).toOption = (t.indexColumn f k').toOption := by
  have hf : f.Alike f := ⟨rfl, rfl⟩
  have hexpr' : (k.map Expr.keyAsName).term.expr.outline names = (k'.map Expr.keyAsName).term.expr.outline names :=
    hexpr
  obtain ⟨hfound, hresult⟩ := resolveTerm_congr .key h hf hexpr' hheight
  rw [indexColumn_eq, indexColumn_eq]
  generalize t.resolveTerm .key f (k.map Expr.keyAsName).term = x at hfound hresult
  generalize t.resolveTerm .key f (k'.map Expr.keyAsName).term = x' at hfound hresult
  obtain ⟨⟨fault, _⟩, e⟩ := x
  obtain ⟨⟨fault', _⟩, e'⟩ := x'
  have hcolumn : e.withoutCollation.column? = e'.withoutCollation.column? := by
    rw [← @Expr.column?_outline names e.withoutCollation, ← Expr.withoutCollation_outline, hresult,
      Expr.withoutCollation_outline, Expr.column?_outline]
  have hcollation : e.collation? = e'.collation? := by
    rw [← @Expr.collation?_outline names e, hresult, Expr.collation?_outline]
  have hfault := hfound.fault
  cases fault with
  | some m =>
    cases fault' with
    | some m' => rfl
    | none => cases hfault
  | none =>
    cases fault' with
    | some m' => cases hfault
    | none => simp only [hcolumn, hcollation]

end Table

/-- Two computations that fail together and give the same otherwise, one for each of two lists. -/
theorem toOption_mapM_congr {α β ε : Type} {R : α → α → Prop} {f : α → Except ε β}
    (hf : ∀ a a', R a a' → (f a).toOption = (f a').toOption) {as as' : List α} (h : List.Forall₂ R as as') :
    (as.mapM f).toOption = (as'.mapM f).toOption := by
  have hbind {γ δ : Type} {x x' : Except ε γ} {g g' : γ → Except ε δ} (hx : x.toOption = x'.toOption)
      (hg : ∀ c, (g c).toOption = (g' c).toOption) : (x >>= g).toOption = (x' >>= g').toOption := by
    cases x with
    | error m =>
      cases x' with
      | error m' => rfl
      | ok c' => cases hx
    | ok c =>
      cases x' with
      | error m' => cases hx
      | ok c' =>
        obtain rfl := Option.some.inj hx
        exact hg c
  induction h with
  | nil => rfl
  | cons hab _ ih =>
    rw [List.mapM_cons, List.mapM_cons]
    exact hbind (hf _ _ hab) fun b => hbind ih fun bs => rfl

/-- Terms that are alike name the same, up to letter case. -/
theorem KeyTerm.Alike.name? {k k' : KeyTerm} (h : k.Alike names k') : k.name?.map fold = k'.name?.map fold := by
  have hfound (k : KeyTerm) :
      k.name?.map fold = (k.term.expr.deepAsName.outline names).withoutCollation.name?.map fold := by
    rw [Expr.withoutCollation_outline, KeyTerm.name?]
    cases k.term.expr.deepAsName.withoutCollation with
    | name n => exact congrArg some (Name.fold_text_outline n).symm
    | _ => rfl
  rw [hfound, hfound, h.term.deep]

namespace Draft

variable {d : Draft}

/-! ## Keys -/

theorem nullsFault?_congr {ts ts' : List KeyTerm} (h : List.Forall₂ (KeyTerm.Alike names) ts ts') :
    nullsFault? ts = nullsFault? ts' := by
  have hfirst : ts.findSome? KeyTerm.nullsFirst = ts'.findSome? KeyTerm.nullsFirst := by
    induction h with
    | nil => rfl
    | cons hab _ ih => rw [List.findSome?_cons, List.findSome?_cons, hab.nullsFirst, ih]
  rw [nullsFault?, nullsFault?, hfirst]

theorem keyColumn_congr {t : Table} (h : t.HasNames names) {k k' : KeyTerm}
    (hexpr : k.term.expr.keyAsName.outline names = k'.term.expr.keyAsName.outline names)
    (hheight : k.term.height = k'.term.height) :
    (keyColumn t k).toOption = (keyColumn t k').toOption := by
  have hcolumn := Table.indexColumn_congr (f := ⟨none, false⟩) h hexpr hheight
  unfold keyColumn
  generalize t.indexColumn ⟨none, false⟩ k = x at hcolumn
  generalize t.indexColumn ⟨none, false⟩ k' = x' at hcolumn
  cases x with
  | error m =>
    cases x' with
    | error m' => rfl
    | ok c' => cases hcolumn
  | ok c =>
    cases x' with
    | error m' => cases hcolumn
    | ok c' =>
      obtain rfl := Option.some.inj hcolumn
      rfl

/-- Keys on terms that name the same are the same. -/
theorem addKey_congr {ts ts' : List KeyTerm} (hnulls : nullsFault? ts = nullsFault? ts')
    (hlength : ts.length = ts'.length)
    (hkey : (ts.mapM (keyColumn d.table)).toOption = (ts'.mapM (keyColumn d.table)).toOption) (conflict : Option Conflict)
    (origin : IndexOrigin) :
    Step.Alike names (d.addKey ts conflict origin) (d.addKey ts' conflict origin) := by
  unfold addKey
  rw [hnulls, hlength]
  split
  · exact ⟨rfl, rfl⟩
  split
  · exact ⟨rfl, rfl⟩
  cases hts : ts.mapM (keyColumn d.table) with
  | error m =>
    cases hts' : ts'.mapM (keyColumn d.table) with
    | error m' => exact ⟨rfl, rfl⟩
    | ok key' =>
      rw [hts, hts'] at hkey
      cases hkey
  | ok key =>
    cases hts' : ts'.mapM (keyColumn d.table) with
    | error m' =>
      rw [hts, hts'] at hkey
      cases hkey
    | ok key' =>
      rw [hts, hts'] at hkey
      obtain rfl := Option.some.inj hkey
      exact ⟨rfl, rfl⟩

theorem addKey_outline (d : Draft) (ts : List KeyTerm) (conflict : Option Conflict) (origin : IndexOrigin) :
    (d.outline names).addKey ts conflict origin = Step.outline names (d.addKey ts conflict origin) := by
  have hkey : (keyColumn (d.outline names).table) = keyColumn d.table := by
    funext k
    simp only [keyColumn, table_outline, Table.indexColumn_outline]
  unfold addKey
  rw [hkey]
  split
  · rfl
  split
  · rfl
  split
  · rfl
  · exact d.addIndex_outline _ _ _

theorem namedColumns_eq_filterMap (t : Table) (ts : List KeyTerm) :
    namedColumns t ts = ts.filterMap fun k => k.name?.bind t.column? := by
  unfold namedColumns
  congr 1
  funext k
  unfold KeyTerm.name?
  cases k.term.expr.deepAsName.withoutCollation <;> rfl

/-- The columns that terms name do not depend on how the names are spelled. -/
theorem namedColumns_congr (t : Table) {ts ts' : List KeyTerm} (h : List.Forall₂ (KeyTerm.Alike names) ts ts') :
    namedColumns t ts = namedColumns t ts' := by
  have hcolumn {k k' : KeyTerm} (h : k.Alike names k') : k.name?.bind t.column? = k'.name?.bind t.column? := by
    have hfold (k : KeyTerm) : k.name?.bind t.column? = (k.name?.map fold).bind t.column? := by
      cases k.name? with
      | none => rfl
      | some n => exact (Table.column?_fold n).symm
    rw [hfold, hfold, h.name?]
  rw [namedColumns_eq_filterMap, namedColumns_eq_filterMap]
  induction h with
  | nil => rfl
  | cons hab _ ih => rw [List.filterMap_cons, List.filterMap_cons, ih, hcolumn hab]

theorem namedColumns_outline (t : Table) (ts : List KeyTerm) : namedColumns (t.outline names) ts = namedColumns t ts := by
  unfold namedColumns
  simp only [Table.column?_outline]

theorem tablePrimaryKey_outline (d : Draft) (ts : List KeyTerm) (conflict : Option Conflict) (counts : Bool) :
    (d.outline names).tablePrimaryKey ts conflict counts = Step.outline names (d.tablePrimaryKey ts conflict counts) := by
  have hmark (columns : List Nat) : ({ d.outline names with hasKey := true } : Draft).markKeys columns =
      Step.outline names (({ d with hasKey := true } : Draft).markKeys columns) :=
    markKeys_outline { d with hasKey := true } columns
  have hcolumns : namedColumns (d.outline names).table ts = namedColumns d.table ts := namedColumns_outline d.table ts
  unfold tablePrimaryKey
  simp only [hasKey_outline, hcolumns, hmark]
  generalize ({ d with hasKey := true } : Draft).markKeys (namedColumns d.table ts) = step
  obtain ⟨marked, fault⟩ := step
  simp only [Step.outline, isRowid_outline, addKey_outline]
  split
  · rfl
  split
  · next i hi =>
    simp only [hi]
    rfl
  · next hnone =>
    simp only [hnone]
    split
    · rfl
    · cases fault <;> rfl

/-- Terms of a key whose strings are taken as names, whatever collations are around them. -/
theorem mapM_deepAsName_congr {t : Table} (h : t.HasNames names) {ts ts' : List KeyTerm}
    (hts : List.Forall₂ (KeyTerm.Alike names) ts ts') :
    ((ts.map fun k => k.map Expr.deepAsName).mapM (keyColumn t)).toOption =
      ((ts'.map fun k => k.map Expr.deepAsName).mapM (keyColumn t)).toOption := by
  have hdeep : List.Forall₂ (fun k k' : KeyTerm =>
      k.term.expr.keyAsName.outline names = k'.term.expr.keyAsName.outline names ∧ k.term.height = k'.term.height)
      (ts.map fun k => k.map Expr.deepAsName) (ts'.map fun k => k.map Expr.deepAsName) := by
    rw [List.forall₂_map_left_iff, List.forall₂_map_right_iff]
    refine hts.imp fun k k' hk => ⟨?_, hk.term.height⟩
    simp only [KeyTerm.map, Expr.keyAsName_deepAsName]
    exact hk.term.deep
  exact toOption_mapM_congr (fun k k' hk => keyColumn_congr h hk.1 hk.2) hdeep

/-- A primary key on one column that numbers the rows, or one that has an index. -/
theorem numberedKey_congr (marked : Draft) (conflict : Option Conflict) (counts : Bool) (m fault : Option String)
    {x x' : Step} (h : Step.Alike names x x') (single : Option Nat) :
    Step.Alike names (match single with
      | some i =>
        ({ marked with table := { marked.table with rowidColumn := some i }, keyConflict := conflict, counts }, m)
      | none =>
        if counts then (marked, some cannotCount)
        else match fault with
          | some m => (marked, some m)
          | none => x)
    (match single with
      | some i =>
        ({ marked with table := { marked.table with rowidColumn := some i }, keyConflict := conflict, counts }, m)
      | none =>
        if counts then (marked, some cannotCount)
        else match fault with
          | some m => (marked, some m)
          | none => x') := by
  cases single with
  | some i => exact ⟨rfl, rfl⟩
  | none =>
    simp only
    split
    · exact ⟨rfl, rfl⟩
    · cases fault with
      | some m => exact ⟨rfl, rfl⟩
      | none => exact h

/-- The primary key of a table does not depend on how its terms are spelled. -/
theorem tablePrimaryKey_congr (h : d.table.HasNames names) {ts ts' : List KeyTerm}
    (hts : List.Forall₂ (KeyTerm.Alike names) ts ts') (conflict : Option Conflict) (counts : Bool) :
    Step.Alike names (d.tablePrimaryKey ts conflict counts) (d.tablePrimaryKey ts' conflict counts) := by
  have hnulls := nullsFault?_congr hts
  have hdeep (ts : List KeyTerm) : nullsFault? (ts.map fun k => k.map Expr.deepAsName) = nullsFault? ts := by
    simp only [nullsFault?, List.findSome?_map]
    rfl
  have hlength : (ts.map fun k => k.map Expr.deepAsName).length = (ts'.map fun k => k.map Expr.deepAsName).length := by
    simp [hts.length_eq]
  unfold tablePrimaryKey
  rw [namedColumns_congr d.table hts, hnulls]
  split
  · exact ⟨rfl, rfl⟩
  have hnames := h.congr (columnNames_markKeys { d with hasKey := true } (namedColumns d.table ts')).symm
  simp only
  generalize ({ d with hasKey := true } : Draft).markKeys (namedColumns d.table ts') = step at hnames
  obtain ⟨marked, fault⟩ := step
  change marked.table.HasNames names at hnames
  have hadd : Step.Alike names (marked.addKey (ts.map fun k => k.map Expr.deepAsName) conflict .primaryKey)
      (marked.addKey (ts'.map fun k => k.map Expr.deepAsName) conflict .primaryKey) :=
    addKey_congr (by rw [hdeep, hdeep, hnulls]) hlength (mapM_deepAsName_congr hnames hts) conflict .primaryKey
  have hsingle := numberedKey_congr marked conflict counts ((nullsFault? ts').or fault) fault hadd
  generalize namedColumns d.table ts' = columns
  rcases hts with _ | ⟨_, _ | ⟨_, _⟩⟩
  · exact hsingle none
  · rcases columns with _ | ⟨i, _ | ⟨_, _⟩⟩
    · exact hsingle none
    · exact hsingle (if marked.isRowid i then some i else none)
    · exact hsingle none
  · exact hsingle none

/-! ## The last step -/

theorem insistOnTypes_outline (d : Draft) : Step.Alike names (d.outline names).insistOnTypes d.insistOnTypes := by
  have hfault : (d.outline names).table.columns.findSome? (strictFault? (d.outline names).table) = none ↔
      d.table.columns.findSome? (strictFault? d.table) = none := by
    simp only [table_outline, Table.columns_outline, List.findSome?_map, List.findSome?_eq_none_iff, Function.comp_apply]
    refine forall_congr' fun c => imp_congr_right fun _ => ?_
    have hstandard : (c.outline names).type.standard = c.type.standard := rfl
    simp only [strictFault?, hstandard]
    constructor <;> intro h <;> (repeat' split at h) <;> simp_all
  have hcolumns : ((d.table.columns.map (Column.outline names)).mapIdx (strictColumn d.table.rowidColumn)).map
      (Column.outline names) = (d.table.columns.mapIdx (strictColumn d.table.rowidColumn)).map (Column.outline names) := by
    refine List.ext_getElem? fun i => ?_
    simp only [List.getElem?_map, List.getElem?_mapIdx]
    cases d.table.columns[i]? with
    | none => rfl
    | some c =>
      simp only [Option.map_some, strictColumn, Column.outline, ColumnType.outline, Option.map_map, Option.some.injEq,
        Column.mk.injEq, true_and, and_true]
      refine ⟨?_, congrArg (Option.map · _) (funext Expr.outline_outline)⟩
      split <;> rfl
  unfold insistOnTypes
  split
  · next m hm =>
    split
    · exact ⟨d.outline_outline, rfl⟩
    · next hnone =>
      rw [hfault.mpr hnone] at hm
      cases hm
  · next hnone =>
    rw [hfault.mp hnone]
    refine ⟨?_, rfl⟩
    have hrest : (d.outline names).outline names = d.outline names := d.outline_outline
    simp only [outline, Draft.mk.injEq] at hrest ⊢
    refine ⟨?_, hrest.2⟩
    simp only [Table.outline, hcolumns]

/-- The order in which rows are stored does not depend on how columns are spelled. -/
theorem storageOrder_outline (columns : List Column) (key : List IndexColumn) :
    Key.storageOrder (columns.map (Column.outline names)) key = Key.storageOrder columns key := by
  have hstored (i : Nat) : (columns.map (Column.outline names))[i]?.map Column.isStored =
      columns[i]?.map Column.isStored := by
    rw [List.getElem?_map, Option.map_map]
    rfl
  simp only [Key.storageOrder, Key.others, hstored, List.length_map]

/-- The columns of the primary key are not null, and no column stands for the row number. -/
def withoutNumber (d : Draft) : Draft :=
  { d with table := { d.table with
    columns := d.table.columns.map fun c => { c with notNull := c.notNull || c.inKey }, rowidColumn := none } }

/-- A column that stood for the row number gets the index of the primary key, unless a fault is pending. -/
def keyIndexed (d : Draft) (rowidColumn : Option Nat) (pending : Option String) : Step :=
  match rowidColumn, pending with
  | some i, none => d.addIndex (d.columnKey i) d.keyConflict .primaryKey
  | _, _ => (d, pending)

/-- The index of the primary key holds the rows. -/
def keyRows (d : Draft) : Draft :=
  let key := match d.table.primaryKey? with
    | some pk => Key.distinct pk.key
    | none => []
  let finish (ix : Index) : Index :=
    if ix.origin = .primaryKey then
      { ix with
        key
        columns := Key.storageOrder d.table.columns key
        held := List.range d.table.columns.length
        root := d.table.root }
    else ix.extend key
  { d with table := { d.table with indexes := d.table.indexes.map finish } }

theorem dropRowids_eq (d : Draft) (pending : Option String) :
    d.dropRowids pending =
      ((d.withoutNumber.keyIndexed d.table.rowidColumn pending).1.keyRows,
        (d.withoutNumber.keyIndexed d.table.rowidColumn pending).2) :=
  rfl

theorem keyRows_outline (d : Draft) : (d.outline names).keyRows = d.keyRows.outline names := by
  unfold keyRows
  simp only [table_outline, Table.columns_outline, storageOrder_outline, List.length_map]
  rfl

theorem keyIndexed_outline (d : Draft) (rowidColumn : Option Nat) (pending : Option String) :
    (d.outline names).keyIndexed rowidColumn pending = Step.outline names (d.keyIndexed rowidColumn pending) := by
  unfold keyIndexed
  cases rowidColumn with
  | none => rfl
  | some i =>
    cases pending with
    | some m => rfl
    | none =>
      simp only [columnKey_outline, addIndex_outline]
      rfl

theorem withoutNumber_outline (d : Draft) : (d.outline names).withoutNumber = d.withoutNumber.outline names := by
  simp only [withoutNumber, outline, Table.outline, List.map_map]
  rfl

theorem dropRowids_outline (d : Draft) (pending : Option String) :
    (d.outline names).dropRowids pending = Step.outline names (d.dropRowids pending) := by
  rw [dropRowids_eq, dropRowids_eq, withoutNumber_outline, table_outline, Table.rowidColumn_outline, keyIndexed_outline]
  simp only [Step.outline, keyRows_outline]

/-- What a pending fault says does not matter. -/
theorem dropRowids_congr (d : Draft) {pending pending' : Option String} (h : pending.isSome = pending'.isSome) :
    Step.Alike names (d.dropRowids pending) (d.dropRowids pending') := by
  cases pending with
  | none =>
    cases pending' with
    | none => exact ⟨rfl, rfl⟩
    | some m' => cases h
  | some m =>
    cases pending' with
    | none => cases h
    | some m' =>
      rw [dropRowids_eq, dropRowids_eq]
      cases d.table.rowidColumn <;> exact ⟨rfl, rfl⟩

/-- Names are looked up alike in the expression of a column. -/
theorem lookUp_congr (x x' : Draft × Findings) (hx : x.1.outline names = x'.1.outline names) (h : x.1.table.HasNames names)
    (hf : x.2.Alike x'.2) {p p' : Nat × Term} (hp : p.1 = p'.1) (hterm : p.2.Alike names p'.2) :
    (lookUp x p).1.outline names = (lookUp x' p').1.outline names ∧ (lookUp x p).2.Alike (lookUp x' p').2 := by
  have htable : x'.1.table.resolveTerm .generated x'.2 p'.2 = x.1.table.resolveTerm .generated x'.2 p'.2 := by
    rw [← @Table.resolveTerm_outline names x'.1.table, ← table_outline, ← hx, table_outline,
      Table.resolveTerm_outline]
  obtain ⟨hfound, hresult⟩ := Table.resolveTerm_congr .generated h hf hterm.expr hterm.height
  have hmodify (d : Draft) (i : Nat) (e : Expr) :
      (d.modifyColumn i fun c => { c with value := some e }).outline names =
        (d.outline names).modifyColumn i fun c => { c with value := some (e.outline names) } :=
    (d.modifyColumn_outline names (f := fun c => { c with value := some e }) (fun _ => rfl) i).symm
  unfold lookUp
  rw [htable]
  exact ⟨by rw [hmodify, hmodify, hx, hp, hresult], hfound⟩

/-- Names are looked up alike in the expressions of computed columns. -/
theorem resolveComputed_congr {d d' : Draft} (hd : d.outline names = d'.outline names) (h : d.table.HasNames names)
    {f f' : Findings} (hf : f.Alike f') :
    (d.resolveComputed f).1.outline names = (d'.resolveComputed f').1.outline names ∧
      (d.resolveComputed f).2.Alike (d'.resolveComputed f').2 := by
  have hcomputed : List.Forall₂ (fun p p' : Nat × Term => p.1 = p'.1 ∧ p.2.Alike names p'.2) d.computed d'.computed := by
    have hsame : d.computed.map (fun p => (p.1, p.2.outline names)) = d'.computed.map fun p => (p.1, p.2.outline names) :=
      congrArg computed hd
    rw [← List.forall₂_eq_eq_eq, List.forall₂_map_left_iff, List.forall₂_map_right_iff] at hsame
    exact hsame.imp fun p p' hp => ⟨(Prod.mk.inj hp).1, Term.outline_eq_iff.mp (Prod.mk.inj hp).2⟩
  change (d.computed.foldl lookUp (d, f)).1.outline names = (d'.computed.foldl lookUp (d', f')).1.outline names ∧
    (d.computed.foldl lookUp (d, f)).2.Alike (d'.computed.foldl lookUp (d', f')).2
  generalize d.computed = ps at hcomputed
  generalize d'.computed = ps' at hcomputed
  induction hcomputed generalizing d d' f f' with
  | nil => exact ⟨hd, hf⟩
  | cons hp _ ih =>
    obtain ⟨hlooked, hfound⟩ := lookUp_congr (d, f) (d', f') hd h hf hp.1 hp.2
    exact ih hlooked (h.congr (columnNames_lookUp (d, f) _).symm) hfound

/-- The names in checks and in the expressions of computed columns are looked up behind the other steps. -/
def named (x : Step) : Step :=
  let (d, f) := x.1.resolveComputed (x.1.table.resolveTerms .check ⟨x.2, false⟩ x.1.checks)
  if d.table.columns.all fun c => c.generation.isSome then (d, some "must have at least one non-generated column")
  else (d, f.fault)

theorem finish_eq (d : Draft) (pending : Option String) :
    d.finish pending =
      let title := d.title
      let (d, fault) := if d.strict then d.insistOnTypes else (d, none)
      if fault.isSome then (d, fault)
      else if d.table.withoutRowid && d.counts then (d, some "AUTOINCREMENT not allowed on WITHOUT ROWID tables")
      else if d.table.withoutRowid && !d.hasKey then (d, some s!"PRIMARY KEY missing on table {title}")
      else named (if d.table.withoutRowid then d.dropRowids pending else (d, pending)) :=
  rfl

theorem named_congr {x x' : Step} (hx : x.Alike names x') (h : x.1.table.HasNames names) :
    Step.Alike names (named x) (named x') := by
  have hchecks : List.Forall₂ (Term.Alike names) x.1.checks x'.1.checks := by
    have hsame : x.1.checks.map (Term.outline names) = x'.1.checks.map (Term.outline names) := congrArg checks hx.draft
    rw [← List.forall₂_eq_eq_eq, List.forall₂_map_left_iff, List.forall₂_map_right_iff] at hsame
    exact hsame.imp fun t t' ht => Term.outline_eq_iff.mp ht
  have htable (f : Findings) (ts : List Term) :
      x'.1.table.resolveTerms .check f ts = x.1.table.resolveTerms .check f ts := by
    have hterm (f : Findings) (t : Term) : x'.1.table.resolveTerm .check f t = x.1.table.resolveTerm .check f t := by
      rw [← @Table.resolveTerm_outline names x'.1.table, ← table_outline, ← hx.draft, table_outline,
        Table.resolveTerm_outline]
    induction ts generalizing f with
    | nil => rfl
    | cons t ts ih => simp only [Table.resolveTerms, hterm, ih]
  have hpending : Findings.Alike ⟨x.2, false⟩ ⟨x'.2, false⟩ := ⟨hx.fault, rfl⟩
  have hfound := Table.resolveTerms_congr .check h hchecks hpending
  rw [← htable ⟨x'.2, false⟩] at hfound
  obtain ⟨hdraft, hfault⟩ := resolveComputed_congr hx.draft h hfound
  have hall (d : Draft) : (d.table.columns.all fun c => c.generation.isSome) =
      ((d.outline names).table.columns.all fun c => c.generation.isSome) := by
    simp only [table_outline, Table.columns_outline, List.all_map]
    rfl
  unfold named
  simp only
  rw [hall (x.1.resolveComputed _).1, hdraft, ← hall]
  split
  · exact ⟨hdraft, rfl⟩
  · exact ⟨hdraft, hfault.fault⟩

theorem finish_congr {d d' : Draft} (hd : d.outline names = d'.outline names) (h : d.table.HasNames names)
    {pending pending' : Option String} (hpending : pending.isSome = pending'.isSome) :
    Step.Alike names (d.finish pending) (d'.finish pending') := by
  have hstrict : d.strict = d'.strict := congr_outline (f := strict) (fun _ => rfl) hd
  have htitle : d.title = d'.title := congr_outline (f := title) (fun _ => rfl) hd
  have hinsist : Step.Alike names (if d.strict then d.insistOnTypes else (d, none))
      (if d'.strict then d'.insistOnTypes else (d', none)) := by
    rw [hstrict]
    split
    · exact (insistOnTypes_outline d).symm.trans (hd ▸ insistOnTypes_outline d')
    · exact ⟨hd, rfl⟩
  have hnames : (if d.strict then d.insistOnTypes else (d, none)).1.table.HasNames names := by
    split
    · exact h.congr (columnNames_insistOnTypes d).symm
    · exact h
  rw [finish_eq, finish_eq]
  generalize (if d.strict then d.insistOnTypes else (d, none)) = x at hinsist hnames
  generalize (if d'.strict then d'.insistOnTypes else (d', none)) = x' at hinsist
  have hwithout : x.1.table.withoutRowid = x'.1.table.withoutRowid :=
    congr_outline (f := fun d => d.table.withoutRowid) (fun _ => rfl) hinsist.draft
  have hcounts : x.1.counts = x'.1.counts := congr_outline (f := counts) (fun _ => rfl) hinsist.draft
  have hkey : x.1.hasKey = x'.1.hasKey := congr_outline (f := hasKey) (fun _ => rfl) hinsist.draft
  have hdropped : Step.Alike names (if x.1.table.withoutRowid then x.1.dropRowids pending else (x.1, pending))
      (if x'.1.table.withoutRowid then x'.1.dropRowids pending' else (x'.1, pending')) := by
    rw [hwithout]
    split
    · have hsame : Step.outline names (x.1.dropRowids pending) = Step.outline names (x'.1.dropRowids pending) := by
        rw [← dropRowids_outline, ← dropRowids_outline, hinsist.draft]
      exact (Step.Alike.of_eq hsame).trans (dropRowids_congr x'.1 hpending)
    · exact ⟨hinsist.draft, hpending⟩
  have hdroppedNames : (if x.1.table.withoutRowid then x.1.dropRowids pending else (x.1, pending)).1.table.HasNames
      names := by
    split
    · exact hnames.congr (columnNames_dropRowids x.1 pending).symm
    · exact hnames
  simp only
  rw [hinsist.fault, htitle, hcounts, hkey]
  generalize (if x.1.table.withoutRowid then x.1.dropRowids pending else (x.1, pending)) = y at hdropped hdroppedNames
  rw [hwithout]
  split
  · exact hinsist
  split
  · exact ⟨hinsist.draft, rfl⟩
  split
  · exact ⟨hinsist.draft, rfl⟩
  · exact named_congr hdropped hdroppedNames

/-! ## All clauses -/

end Draft

/-- A clause for which names of columns are looked up. -/
def Clause.Looks : Clause → Prop
  | .tablePrimaryKey .. | .tableUnique .. | .finish => True
  | _ => False

namespace Draft

variable {d d' : Draft}

/-- What is done to two drafts of one outline, if it is done to the outline of a draft as to the draft. -/
theorem congr_step {f : Draft → Step} (hf : ∀ d : Draft, f (d.outline names) = Step.outline names (f d))
    (hd : d.outline names = d'.outline names) : Step.Alike names (f d) (f d') :=
  .of_eq (by rw [← hf d, hd, hf])

theorem addColumn_congr (hd : d.outline names = d'.outline names) (n : List UInt8) {t t' : List UInt8}
    (ht : (ColumnType.ofText t).outline = (ColumnType.ofText t').outline) :
    Step.Alike names (d.addColumn n t) (d'.addColumn n t') := by
  have hadd (d : Draft) (t : List UInt8) :
      ({ d with table := { d.table with
        columns := d.table.columns ++ [⟨n, .ofText t, none, none, none, false, false⟩] } } : Draft).outline names =
        { d.outline names with table := { (d.outline names).table with
          columns := (d.outline names).table.columns ++
            [⟨n, (ColumnType.ofText t).outline, none, none, none, false, false⟩] } } := by
    simp only [outline, Table.outline, List.map_append]
    rfl
  have hlength : d.table.columns.length = d'.table.columns.length :=
    congr_outline (f := fun d => d.table.columns.length) (fun d => by simp) hd
  have hfound : d.table.column? n = d'.table.column? n :=
    congr_outline (f := fun d => d.table.column? n) (fun d => by simp) hd
  unfold addColumn
  simp only
  rw [hlength, hfound]
  split
  · exact ⟨hd, rfl⟩
  split
  · exact ⟨hd, rfl⟩
  · exact ⟨by rw [hadd, hadd, hd, ht], rfl⟩

/-- Of the word behind its expression, only what it says about a computed column counts. -/
theorem setGenerated_storage (d : Draft) (t : Term) {storage storage' : Option (List UInt8)}
    (h : generationOf? storage = generationOf? storage') : d.setGenerated t storage = d.setGenerated t storage' := by
  unfold setGenerated
  rw [h]

theorem reference_congr (hd : d.outline names = d'.outline names) (table table' : List UInt8) (columns : Option Nat) :
    Step.Alike names (d.reference table columns) (d'.reference table' columns) := by
  rcases columns with _ | _ | _ | n <;> exact ⟨hd, rfl⟩

/-- Clauses that are alike make drafts of one outline of drafts of one outline, and are at fault together. -/
theorem apply_congr (hd : d.outline names = d'.outline names) {pending pending' : Option String}
    (hpending : pending.isSome = pending'.isSome) {k k' : Clause} (hk : k.Alike names k')
    (hnames : k.Looks → d.table.HasNames names) : Step.Alike names (d.apply pending k) (d'.apply pending' k') := by
  have hkeys {f : Draft → Step} (hf : ∀ d : Draft, f (d.outline names) = Step.outline names (f d)) {x : Step}
      (hx : Step.Alike names x (f d)) : Step.Alike names x (f d') := hx.trans (congr_step hf hd)
  cases hk with
  | column n ht => exact addColumn_congr hd n ht
  | inert => exact ⟨hd, rfl⟩
  | notNull =>
    refine congr_step (f := fun d => (d.modifyColumn d.last fun c => { c with notNull := true }, none)) (fun d => ?_) hd
    simp only [last_outline, d.modifyColumn_outline names (f := fun c => { c with notNull := true })
      (g := fun c => { c with notNull := true }) fun _ => rfl]
    rfl
  | default ht =>
    refine .of_eq ?_
    simp only [apply]
    rw [← setDefault_outline, ← setDefault_outline, hd, ht.expr]
  | primaryKey descending conflict counts =>
    exact congr_step (f := fun d => d.columnPrimaryKey descending conflict counts)
      (fun d => columnPrimaryKey_outline d descending conflict counts) hd
  | unique conflict =>
    exact congr_step (f := fun d => d.addIndex (d.columnKey d.last) conflict .unique) (fun d => by simp) hd
  | @check t t' ht =>
    have hkeeps : d.keepsChecks = d'.keepsChecks := congr_outline (f := keepsChecks) (fun _ => rfl) hd
    have hadd (d : Draft) (t : Term) : ({ d with checks := d.checks ++ [t] } : Draft).outline names =
        { d.outline names with checks := (d.outline names).checks ++ [t.outline names] } := by
      simp [outline]
    refine ⟨?_, rfl⟩
    change outline names (if d.keepsChecks then _ else _) = outline names (if d'.keepsChecks then _ else _)
    by_cases hlooked : d.keepsChecks
    · rw [if_pos hlooked, if_pos (hkeeps ▸ hlooked), hadd, hadd, hd, Term.outline_eq_iff.mpr ht]
    · rw [if_neg hlooked, if_neg (hkeeps ▸ hlooked)]
      exact hd
  | collate collation =>
    exact congr_step (f := fun d => (d.setCollation collation, none))
      (fun d => by rw [setCollation_outline]; rfl) hd
  | @generated t t' _ _ ht hstorage =>
    refine .of_eq ?_
    simp only [apply]
    rw [setGenerated_storage d t (generationOf?_congr hstorage), ← setGenerated_outline, ← setGenerated_outline, hd,
      Term.outline_eq_iff.mpr ht]
  | references columns => exact reference_congr hd _ _ columns
  | @tablePrimaryKey ts ts' conflict counts hts =>
    exact hkeys (f := fun d => d.tablePrimaryKey ts' conflict counts)
      (fun d => tablePrimaryKey_outline d ts' conflict counts)
      (tablePrimaryKey_congr (hnames trivial) hts conflict counts)
  | @tableUnique ts ts' conflict hts =>
    have hkey := toOption_mapM_congr (f := keyColumn d.table)
      (fun k k' (hk : KeyTerm.Alike names k k') => keyColumn_congr (hnames trivial) hk.term.shallow hk.term.height) hts
    exact hkeys (f := fun d => d.addKey ts' conflict .unique) (fun d => addKey_outline d ts' conflict .unique)
      (addKey_congr (nullsFault?_congr hts) hts.length_eq hkey conflict .unique)
  | foreignKey own columns =>
    exact congr_step (f := fun d => d.foreignKey own columns) (fun d => foreignKey_outline d own columns) hd
  | withoutRowid =>
    exact congr_step (f := fun d => ({ d with table := { d.table with withoutRowid := true } }, none)) (fun _ => rfl) hd
  | strict => exact congr_step (f := fun d => ({ d with strict := true }, none)) (fun _ => rfl) hd
  | unknownOption => exact ⟨hd, rfl⟩
  | finish => exact finish_congr hd (hnames trivial) hpending

end Draft
end FirstRow.Sql
