import FirstRow.Proofs.Sql.Respelled
import FirstRow.Proofs.Store.Catalog

/-!
# Catalogs of respelled schemas

The shape of a catalog is what is left of it when the text of types is dropped and the names in the expressions of
columns are written in one way. An entry makes of a catalog of the same shape a catalog of the same shape
(`add_congr_shape`), and an entry whose statement was respelled makes what it made before, apart from that
(`add_respelled`). So a schema whose definitions of tables are respelled builds a catalog of the same shape.
-/
namespace FirstRow.Sql.Table

/-- A table apart from how its types and the names in the expressions of its columns are spelled. -/
def shape (t : Table) : Table := t.outline t.columnNames

@[simp] theorem shape_shape (t : Table) : t.shape.shape = t.shape := by
  simp [shape]

/-- Tables of one outline are of one shape, if their columns have the names of that outline. -/
theorem shape_eq_of_outline {t t' : Table} (h : t.outline t.columnNames = t'.outline t.columnNames) :
    t.shape = t'.shape := by
  have hnames := congrArg columnNames h
  rw [columnNames_outline, columnNames_outline] at hnames
  rw [shape, shape, h, hnames]

@[simp] theorem shape_name (t : Table) : t.shape.name = t.name := rfl

@[simp] theorem shape_indexes (t : Table) : t.shape.indexes = t.indexes := rfl

@[simp] theorem shape_withoutRowid (t : Table) : t.shape.withoutRowid = t.withoutRowid := rfl

@[simp] theorem shape_primaryKey? (t : Table) : t.shape.primaryKey? = t.primaryKey? := rfl

@[simp] theorem shape_withIndexes (t : Table) (ixs : List Index) : t.shape.withIndexes ixs = (t.withIndexes ixs).shape :=
  rfl

theorem shape_rooted (t : Table) (ixs : List Index) :
    ({ t.shape with indexes := ixs } : Table) = shape { t with indexes := ixs } :=
  rfl

end FirstRow.Sql.Table

namespace FirstRow.Store

open FirstRow.Sql

/-- An entry has the statement of another one in a respelling, with nothing in front of its first word. The names that
may be written in other quotation marks in expressions are those of the declared columns. -/
structure SchemaEntry.Respelled (r r' : SchemaEntry) : Prop where
  type : r'.type = r.type
  name : r'.name = r.name
  table : r'.table = r.table
  root : r'.root = r.root
  begins : hasStatement (r.sql.getD []) = true
  begins' : hasStatement (r'.sql.getD []) = true
  respells : ∃ D, r.declaration? = some D ∧ Respells ⟨D.columns.map ColumnDeclaration.name, none⟩ .start
    (Source.ofText (r.sql.getD [])).lexemes (Source.ofText (r'.sql.getD [])).lexemes

/-- A relation apart from how it is spelled. -/
def Relation.shape : Relation → Relation
  | table t => .table t.shape
  | other => other

namespace Relation

@[simp] theorem shape_shape (rel : Relation) : rel.shape.shape = rel.shape := by
  cases rel <;> simp [shape]

@[simp] theorem shape_name (rel : Relation) : rel.shape.name = rel.name := by
  cases rel <;> rfl

@[simp] theorem shape_isView (rel : Relation) : rel.shape.isView = rel.isView := by
  cases rel <;> rfl

@[simp] theorem shape_table? (rel : Relation) : rel.shape.table? = rel.table?.map Table.shape := by
  cases rel <;> rfl

end Relation

namespace Catalog

/-- A catalog apart from how its tables are spelled. -/
def shape (cat : Catalog) : Catalog := { cat with relations := cat.relations.map Relation.shape }

variable {img : Image} {cat cat' : Catalog} {r r' : SchemaEntry} {root : Nat}

/-! ## What is found in a catalog -/

@[simp] theorem shape_shape (cat : Catalog) : cat.shape.shape = cat.shape := by
  simp [shape, Function.comp_def]

@[simp] theorem relation?_shape (cat : Catalog) (name : List UInt8) :
    cat.shape.relation? name = (cat.relation? name).map Relation.shape := by
  simp [relation?, shape, List.find?_map, Function.comp_def]

@[simp] theorem tables_shape (cat : Catalog) : cat.shape.tables = cat.tables.map Table.shape := by
  simp [tables, shape, List.filterMap_map, List.map_filterMap]

@[simp] theorem indexNames_shape (cat : Catalog) : cat.shape.indexNames = cat.indexNames := by
  simp [indexNames, List.flatMap_map]

@[simp] theorem indexed?_shape (cat : Catalog) (name : List UInt8) :
    cat.shape.indexed? name = (cat.indexed? name).map Table.shape := by
  simp [indexed?, List.find?_map, Function.comp_def]

@[simp] theorem addRelation_shape (cat : Catalog) (rel : Relation) :
    (cat.shape.addRelation rel).shape = (cat.addRelation rel).shape := by
  simp [addRelation, shape, Function.comp_def]

@[simp] theorem replace_shape (cat : Catalog) (t : Table) : (cat.shape.replace t.shape).shape = (cat.replace t).shape := by
  simp only [replace, shape, List.map_map, Catalog.mk.injEq, and_true]
  refine List.map_congr_left fun rel _ => ?_
  cases rel with
  | table u => by_cases hsame : Text.Octet.same u.name t.name = true <;> simp [Relation.shape, hsame]
  | virtualTable | view => rfl

@[simp] theorem isNew_shape (cat : Catalog) (r : SchemaEntry) (root : Nat) (type : String) (head : Head) :
    cat.shape.isNew r root type head = cat.isNew r root type head := by
  unfold isNew
  simp only [relation?_shape, indexed?_shape, Option.isSome_map]
  cases cat.relation? (nameFor root head) <;> simp

/-! ## What entries make of a catalog -/

/-- Two ways to add an object come to catalogs of one shape, or fail alike. -/
abbrev SameShape {ε : Type} (x y : Except ε Catalog) : Prop := x.map shape = y.map shape

theorem SameShape.of_ok {ε : Type} {x y : Except ε Catalog} (h : SameShape x y) (hx : x = .ok cat) :
    ∃ cat', y = .ok cat' ∧ cat'.shape = cat.shape := by
  subst hx
  cases y with
  | error e => cases h
  | ok cat' => exact ⟨cat', rfl, (Except.ok.inj h).symm⟩

theorem SameShape.mapError {ε ε' : Type} {x y : Except ε Catalog} (h : SameShape x y) (f : ε → ε') :
    SameShape (x.mapError f) (y.mapError f) := by
  cases x with
  | error e =>
    cases y with
    | error e' =>
      cases h
      rfl
    | ok cat' => cases h
  | ok cat =>
    cases y with
    | error e' => cases h
    | ok cat' => exact congrArg Except.ok (Except.ok.inj h)

theorem SameShape.of_if {ε : Type} {p : Prop} [Decidable p] {x y x' y' : Except ε Catalog}
    (hx : p → SameShape x x') (hy : ¬p → SameShape y y') :
    SameShape (if p then x else y) (if p then x' else y') := by
  split
  · next h => exact hx h
  · next h => exact hy h

theorem addTable_shape (cat : Catalog) (img : Image) (r : SchemaEntry) (root : Nat) (head : Head) (c : Cursor) :
    SameShape (cat.shape.addTable img r root head c) (cat.addTable img r root head c) := by
  unfold addTable
  simp only [isNew_shape, indexNames_shape]
  generalize StateT.run' (Draft.read _) _ = read
  cases read with
  | error e => rfl
  | ok d? =>
    cases d? with
    | none => exact congrArg Except.ok cat.shape_shape
    | some d => exact congrArg Except.ok (cat.addRelation_shape _)

theorem addVirtualTable_shape (cat : Catalog) (r : SchemaEntry) (root : Nat) (head : Head) (c : Cursor) :
    SameShape (cat.shape.addVirtualTable r root head c) (cat.addVirtualTable r root head c) := by
  unfold addVirtualTable
  simp only [isNew_shape]
  cases (do Reader.virtualTableArguments; Reader.finished : Reader Unit).run
    (behind c (cat.isNew r root "table" head)) with
  | error e => rfl
  | ok x =>
    cases cat.isNew r root "table" head with
    | error m => exact congrArg Except.ok cat.shape_shape
    | ok new =>
      cases new with
      | false => exact congrArg Except.ok cat.shape_shape
      | true => exact congrArg Except.ok (cat.addRelation_shape _)

theorem addView_shape (cat : Catalog) (r : SchemaEntry) (root : Nat) (head : Head) (query : QueryTerm) (c : Cursor) :
    SameShape (cat.shape.addView r root head query c) (cat.addView r root head query c) := by
  unfold addView
  simp only [isNew_shape]
  split
  · rfl
  cases cat.isNew r root "view" head with
  | error m => rfl
  | ok new =>
    cases c.fault with
    | some m => rfl
    | none =>
      cases new with
      | false => exact congrArg Except.ok cat.shape_shape
      | true =>
        cases query.foreign with
        | some database => rfl
        | none =>
          by_cases hroot : root = 0
          · subst hroot
            exact congrArg Except.ok (cat.addRelation_shape _)
          · simp only [if_pos hroot]
            rfl

@[simp] theorem indexColumns_shape (t : Table) (terms : List KeyTerm) (condition : Option Term) :
    indexColumns t.shape terms condition = indexColumns t terms condition := by
  simp only [indexColumns, Table.shape, Table.resolveTerm_outline]
  exact congrArg (terms.mapM ·) (funext fun k => Table.indexColumn_outline t _ k)

theorem addIndex_shape (cat : Catalog) (r : SchemaEntry) (root : Nat) (s : IndexStatement) :
    SameShape (cat.shape.addIndex r root s) (cat.addIndex r root s) := by
  unfold addIndex
  extract_lets title name found qualified found' qualified'
  have hfound : SameShape (found ()) (found' ()) := by
    dsimp only [found, found']
    rw [relation?_shape, indexed?_shape, Option.isSome_map]
    cases cat.relation? s.table with
    | none => rfl
    | some rel =>
      cases rel with
      | virtualTable n => rfl
      | view n => rfl
      | table t =>
        change SameShape (if (!r.agrees "index" s.head.name t.name) = true then _ else _)
          (if (!r.agrees "index" s.head.name t.name) = true then _ else _)
        refine SameShape.of_if (fun _ => rfl) fun _ => SameShape.of_if (fun _ => SameShape.of_if (fun _ => ?_) fun _ => rfl) fun _ => ?_
        · exact congrArg Except.ok cat.shape_shape
        refine SameShape.of_if (fun _ => rfl) fun _ => ?_
        rw [indexColumns_shape]
        cases indexColumns t s.terms s.condition with
        | error m => rfl
        | ok key =>
          change SameShape (if (t.indexes.any fun ix => decide (ix.root = root)) = true then _ else _)
            (if (t.indexes.any fun ix => decide (ix.root = root)) = true then _ else _)
          refine SameShape.of_if (fun _ => rfl) fun _ => congrArg Except.ok ?_
          exact (congrArg (fun u => (cat.shape.replace u).shape) (Table.shape_withIndexes t _)).trans (cat.replace_shape _)
  split
  · rfl
  dsimp only [qualified, qualified']
  split
  · rfl
  · exact hfound

@[simp] theorem timeFault?_shape (time : TriggerTime) (rel : Relation) (title : String) :
    timeFault? time rel.shape title = timeFault? time rel title := by
  simp only [timeFault?, Relation.shape_isView]

@[simp] theorem isNewTrigger_shape (cat : Catalog) (r : SchemaEntry) (t : TriggerStatement) :
    cat.shape.isNewTrigger r t = cat.isNewTrigger r t := by
  unfold isNewTrigger
  extract_lets title text found found'
  have hfound : found = found' := by
    dsimp only [found, found']
    rw [relation?_shape]
    cases cat.relation? t.table with
    | none => rfl
    | some rel => cases rel <;> rfl
  rw [hfound]

theorem addTrigger_shape (cat : Catalog) (r : SchemaEntry) (t : TriggerStatement) (c : Cursor) (src : Source) :
    SameShape (cat.shape.addTrigger r t c src) (cat.addTrigger r t c src) := by
  unfold addTrigger
  rw [isNewTrigger_shape]
  extract_lets checked new
  cases ((triggerBody new).run' (behind c checked)).mapError src.complaint with
  | error e => rfl
  | ok foreign =>
    refine SameShape.of_if (fun _ => congrArg Except.ok cat.shape_shape) fun _ => ?_
    cases foreign.or t.foreign with
    | some database => rfl
    | none => exact congrArg Except.ok (by simp [shape, Function.comp_def])

/-- A statement makes the same of catalogs of one shape. -/
theorem addStatement_shape (cat : Catalog) (img : Image) (r : SchemaEntry) (root : Nat) (sql : List UInt8) :
    SameShape (cat.shape.addStatement img r root sql) (cat.addStatement img r root sql) := by
  unfold addStatement
  extract_lets src
  cases (Reader.statement.run (.start src.lexemes)).mapError src.complaint with
  | error e => rfl
  | ok x =>
    obtain ⟨statement, c⟩ := x
    cases statement with
    | table head => exact (cat.addTable_shape img r root head c).mapError _
    | virtualTable head => exact (cat.addVirtualTable_shape r root head c).mapError _
    | trigger t => exact cat.addTrigger_shape r t c src
    | index s =>
      cases hfinished : (Reader.finished.run c).mapError src.complaint with
      | error e => simp only [bind, Except.bind, hfinished]
      | ok y =>
        simp only [bind, Except.bind, hfinished]
        exact (cat.addIndex_shape r root s).mapError _
    | view head query =>
      cases hfinished : (Reader.finished.run { c with fault := none }).mapError src.complaint with
      | error e => simp only [bind, Except.bind, hfinished]
      | ok y =>
        simp only [bind, Except.bind, hfinished]
        exact (cat.addView_shape r root head query c).mapError _

theorem rootIndex_shape (cat : Catalog) (pageCount : Nat) (root name : List UInt8) :
    SameShape (cat.shape.rootIndex pageCount root name) (cat.rootIndex pageCount root name) := by
  unfold rootIndex
  rw [indexed?_shape]
  cases cat.indexed? name with
  | none => rfl
  | some t =>
    cases SchemaEntry.pageNumber? root with
    | none => rfl
    | some n =>
      refine SameShape.of_if (fun _ => rfl) fun _ => congrArg Except.ok ?_
      exact (congrArg (fun u => (cat.shape.replace u).shape) (Table.shape_rooted t _)).trans (cat.replace_shape _)
/-- An entry makes catalogs of one shape of catalogs of one shape. -/
theorem add_shape (cat : Catalog) (img : Image) (r : SchemaEntry) :
    ((cat.shape.add img r).1.shape, (cat.shape.add img r).2) = ((cat.add img r).1.shape, (cat.add img r).2) := by
  unfold add
  cases r.root with
  | none => simp
  | some text =>
    simp only
    split
    · have hsame := cat.addStatement_shape img r ((SchemaEntry.pageNumber? text).getD 0) (r.sql.getD [])
      generalize cat.shape.addStatement img r _ _ = x at hsame
      generalize cat.addStatement img r _ _ = y at hsame
      cases x with
      | error e =>
        cases y with
        | ok _ => cases hsame
        | error e' =>
          cases hsame
          cases e <;> simp
      | ok added =>
        obtain ⟨added', rfl, hshape⟩ := hsame.of_ok rfl
        simp [hshape]
    · cases r.name with
      | none => simp
      | some name =>
        cases (r.sql.getD []).isEmpty with
        | false => simp
        | true =>
          have hsame := cat.rootIndex_shape img.pageCount text name
          simp only
          generalize cat.shape.rootIndex img.pageCount text name = x at hsame
          generalize cat.rootIndex img.pageCount text name = y at hsame
          cases x with
          | error e =>
            cases y with
            | ok _ => cases hsame
            | error e' =>
              cases hsame
              simp
          | ok added =>
            obtain ⟨added', rfl, hshape⟩ := hsame.of_ok rfl
            simp [hshape]

theorem add_congr_shape (h : cat.shape = cat'.shape) {cat₁ : Catalog} (hadd : cat.add img r = (cat₁, none)) :
    ∃ cat₁', cat'.add img r = (cat₁', none) ∧ cat₁'.shape = cat₁.shape := by
  have hsame := (cat.add_shape img r).symm.trans (h ▸ cat'.add_shape img r)
  rw [hadd] at hsame
  obtain ⟨hshape, hfault⟩ := Prod.mk.inj hsame
  exact ⟨_, Prod.ext rfl hfault.symm, hshape.symm⟩

/-! ## Respelled entries -/

/-- What a declaration calls its columns the table does that is made of it. -/
theorem columnNames_of_declaredAs {t : Table} {D : TableDeclaration} {look : Expr → Expr} (h : t.SettledAs D look) :
    t.columnNames = D.columns.map ColumnDeclaration.name := by
  refine List.ext_getElem (by simp [Table.columnNames, h.length_eq]) fun i hi hi' => ?_
  rw [Table.columnNames, List.length_map] at hi
  rw [List.length_map] at hi'
  simp only [Table.columnNames, List.getElem_map]
  exact (h.column i _ _ (List.getElem?_eq_getElem hi') (List.getElem?_eq_getElem hi)).name

/-- A table has the names of its columns. -/
theorem hasNames_columnNames (t : Table) : t.HasNames t.columnNames := by
  intro n hn
  obtain ⟨c, hc, rfl⟩ := List.mem_map.mp hn
  rw [Table.column?, List.findIdx?_isSome, List.any_eq_true]
  exact ⟨c, hc, by simp [Text.Octet.same_iff]⟩

/-- A table or a view is new to a respelled entry if it is new to the entry. -/
theorem isNew_respelled {type : String} {head head' : Head} {new : Bool} (hr : r.Respelled r') (hhead : head.Alike head')
    (h : cat.isNew r root type head = .ok new) : cat.isNew r' root type head' = .ok new := by
  have hname : nameFor root head' = nameFor root head := by rw [nameFor, nameFor, hhead.name]
  have hagrees (name : List UInt8) : r'.agrees type name name = r.agrees type name name := by
    rw [SchemaEntry.agrees, SchemaEntry.agrees, hr.type, hr.name, hr.table]
  unfold isNew at h ⊢
  simp only [hname, hagrees, ← hhead.qualified, ← hhead.ifAbsent] at h ⊢
  split at h
  · cases h
  · next hqualified =>
    rw [if_neg hqualified]
    split at h
    · cases h
    · next hagree =>
      rw [if_neg hagree]
      cases hrel : cat.relation? (nameFor root head) with
      | some old =>
        simp only [hrel] at h ⊢
        split at h
        · next habsent => rwa [if_pos habsent]
        · cases h
      | none =>
        simp only [hrel] at h ⊢
        split at h
        · cases h
        · next hindexed => rwa [if_neg hindexed]

/-- The definition of a table is added of a respelling as it was. -/
theorem addTable_respelled (hr : r.Respelled r') {κ : Licence} (hκ : κ.ends = false) {head head' : Head}
    (hhead : head.Alike head') {c c' : Cursor} (hc : Cursor.Alike κ .start c c')
    (hstatement : Reader.statement.run (.start (Sql.Source.ofText (r.sql.getD [])).lexemes) = .ok (.table head, c))
    (hD : ∃ D, r.declaration? = some D ∧ κ.names = D.columns.map ColumnDeclaration.name)
    (h : cat.addTable img r root head c = .ok cat') :
    ∃ cat'', cat.addTable img r' root head' c' = .ok cat'' ∧ cat''.shape = cat'.shape := by
  obtain ⟨D, hD, hnames⟩ := hD
  have hname : nameFor root head' = nameFor root head := by rw [nameFor, nameFor, hhead.name]
  obtain ⟨d?, hread, h⟩ := bind_eq_ok h
  obtain ⟨c₁, hread⟩ := Reader.run'_ok hread
  cases hnew : cat.isNew r root "table" head with
  | error m =>
    rw [hnew] at hread
    cases (Draft.read_ok hread).1
  | ok new =>
    have hnew' := isNew_respelled hr hhead hnew
    rw [hnew] at hread
    cases new with
    | false =>
      obtain ⟨-, ks, -, -, hbuilt⟩ := Draft.read_ok hread
      cases hbuilt
      obtain ⟨d?', c₁', hread', hsame⟩ := Draft.read_agrees hκ hc hread nofun
      obtain rfl : d?' = none := by simpa using hsame.symm
      cases h
      refine ⟨cat, ?_, rfl⟩
      unfold addTable
      simp only [hnew', behind, StateT.run'_eq, hread']
      rfl
    | true =>
      obtain ⟨d, D', rfl, hsql, hdeclared⟩ := Draft.read_declaredAs hstatement hread
      obtain rfl : D = D' := Option.some.inj (hD.symm.trans hsql)
      have hcolumns : κ.names = d.table.columnNames := hnames.trans (columnNames_of_declaredAs hdeclared).symm
      have hlooked (e : Draft) (he : some d = some e) : e.table.HasNames κ.names := by
        cases he
        exact hcolumns ▸ hasNames_columnNames d.table
      obtain ⟨d?', c₁', hread', hsame⟩ := Draft.read_agrees hκ hc hread hlooked
      obtain ⟨d', rfl, houtline⟩ := Option.map_eq_some_iff.mp hsame.symm
      have hshape : d'.table.shape = d.table.shape := by
        refine (Table.shape_eq_of_outline ?_).symm
        rw [← hcolumns]
        exact congrArg Draft.table houtline.symm
      cases h
      refine ⟨cat.addRelation (.table d'.table), ?_, ?_⟩
      · unfold addTable
        simp only [hnew', behind, StateT.run'_eq, hname, hread']
        rfl
      · simp [addRelation, shape, Relation.shape, hshape]

theorem addStatement_respelled (hr : r.Respelled r') (h : cat.addStatement img r root (r.sql.getD []) = .ok cat') :
    ∃ cat'', cat.addStatement img r' root (r'.sql.getD []) = .ok cat'' ∧ cat''.shape = cat'.shape := by
  obtain ⟨D, hD, hrespells⟩ := hr.respells
  obtain ⟨⟨statement, c⟩, hstatement, h⟩ := bind_eq_ok h
  have hstatement := mapError_eq_ok hstatement
  obtain ⟨x, c', _, hstatement', hc, rfl, head, head', rfl, rfl, hhead⟩ :=
    Reader.Agrees.statement _ _ _ _ (Cursor.Alike.start rfl hrespells) hstatement
  obtain ⟨cat'', hadd, hshape⟩ := addTable_respelled hr rfl hhead hc hstatement ⟨D, hD, rfl⟩ (mapError_eq_ok h)
  refine ⟨cat'', ?_, hshape⟩
  unfold addStatement
  simp only [hstatement']
  simp only [bind, Except.bind, Except.mapError, hadd]

/-- A respelled entry makes of a catalog what the entry makes of it, apart from how it is spelled. -/
theorem add_respelled (hr : r.Respelled r') (h : cat.add img r = (cat', none)) :
    ∃ cat'', cat.add img r' = (cat'', none) ∧ cat''.shape = cat'.shape := by
  unfold add at h ⊢
  rw [hr.root]
  cases hroot : r.root with
  | none =>
    rw [hroot] at h
    cases h
  | some text =>
    simp only [hroot, hr.begins, hr.begins', if_true] at h ⊢
    cases hadd : cat.addStatement img r ((SchemaEntry.pageNumber? text).getD 0) (r.sql.getD []) with
    | error e =>
      rw [hadd] at h
      cases e with
      | nameTaken => cases h
      | detail m =>
        have hfault := congrArg Prod.snd h
        simp at hfault
    | ok added =>
      obtain ⟨cat'', hadd', hshape⟩ := addStatement_respelled hr hadd
      rw [hadd] at h
      obtain ⟨rfl, hfault⟩ := Prod.mk.inj h
      rw [hadd']
      exact ⟨cat'', Prod.ext rfl hfault, hshape⟩

/-- A schema some of whose definitions of tables are respelled builds a catalog of the same shape. -/
theorem Builds.respelled {rs rs' : List SchemaEntry} (h : Builds img cat rs cat')
    (hrs : List.Forall₂ (fun r r' => r = r' ∨ r.Respelled r') rs rs') {start : Catalog} (hstart : start.shape = cat.shape) :
    ∃ cat'', Builds img start rs' cat'' ∧ cat''.shape = cat'.shape := by
  induction h generalizing rs' start with
  | nil =>
    cases hrs
    exact ⟨start, .nil, hstart⟩
  | @cons _ cat₁ _ r _ hadd _ ih =>
    obtain ⟨r', rest', hr, hrest, rfl⟩ := List.forall₂_cons_left_iff.mp hrs
    obtain ⟨start₁, hadd₁, hshape₁⟩ := add_congr_shape hstart.symm hadd
    obtain ⟨start₂, hadd₂, hshape₂⟩ : ∃ start₂, start.add img r' = (start₂, none) ∧ start₂.shape = start₁.shape := by
      rcases hr with rfl | hr
      · exact ⟨start₁, hadd₁, rfl⟩
      · exact add_respelled hr hadd₁
    obtain ⟨cat'', hbuilds, hshape⟩ := ih hrest (hshape₂.trans hshape₁)
    exact ⟨cat'', .cons hadd₂ hbuilds, hshape⟩

end Catalog
end FirstRow.Store
