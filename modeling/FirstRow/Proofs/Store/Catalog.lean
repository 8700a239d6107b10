import FirstRow.Proofs.Sql.Declared
import FirstRow.Proofs.Sql.Draft
import FirstRow.Proofs.Sql.Keys
import FirstRow.Store.Catalog

/-!
# Catalogs and their entries

`Catalog.Added` says once what an entry that is not at fault makes of a catalog; what is known of catalogs follows from
it. `Catalog.Placed` says that the roots of a table and of its indexes are those that entries state, apart from the
primary key of a table whose rows have no number, which is rooted where its table is. A catalog that is built from
entries one after the other has only tables in their places, each of them declared by the statement of its entry, and
every entry of a table has a relation of its name.
-/
namespace FirstRow.Store

open FirstRow.Sql

namespace SchemaEntry

/-- The name of an entry, in any letter case. -/
def IsNamed (r : SchemaEntry) (name : List UInt8) : Prop :=
  ∃ n, r.name = some n ∧ Text.Octet.same name n = true

/-- The type of an entry, in any letter case. -/
def IsOf (r : SchemaEntry) (type : String) : Prop :=
  ∃ t, r.type = some t ∧ Text.Octet.same (Text.Utf8.ofString type) t = true

/-- The page that an entry states as a root. -/
def root? (r : SchemaEntry) : Option Nat :=
  r.root.bind pageNumber?

/-- An entry declares a table of a name by a statement. -/
structure Declares (r : SchemaEntry) (name : List UInt8) : Prop where
  isOf : r.IsOf "table"
  isNamed : r.IsNamed name
  hasStatement : hasStatement (r.sql.getD []) = true

/-- What the statement of an entry declares, if it defines a table. -/
def declaration? (r : SchemaEntry) : Option TableDeclaration :=
  TableDeclaration.ofSql? (r.sql.getD [])

theorem agrees_iff {r : SchemaEntry} {type : String} {name table : List UInt8} (h : r.agrees type name table = true) :
    r.IsOf type ∧ r.IsNamed name := by
  simp only [agrees, Bool.and_eq_true] at h
  obtain ⟨⟨htype, hname⟩, -⟩ := h
  constructor
  · cases ht : r.type with
    | none => simp [ht] at htype
    | some t => exact ⟨t, ht, by simpa [ht] using htype⟩
  · cases hn : r.name with
    | none => simp [hn] at hname
    | some n => exact ⟨n, hn, by simpa [hn] using hname⟩

end SchemaEntry

namespace Catalog

/-- What an entry makes of a catalog if it is not at fault. -/
inductive Added (cat : Catalog) (r : SchemaEntry) : Catalog → Prop where
  | table {head : Head} {root : Nat} {d : Draft} : cat.isNew r root "table" head = .ok true → r.root? = some root →
      d.Of (nameFor root head) root → d.Rooted →
      (∃ D, r.declaration? = some D ∧ d.table.DeclaredAs D ∧ d.table.KeyedAs D) →
      Added cat r (cat.addRelation (.table d.table))
  | virtualTable {head : Head} {root : Nat} : cat.isNew r root "table" head = .ok true → r.declaration? = none →
      Added cat r (cat.addRelation (.virtualTable (nameFor root head)))
  | view {head : Head} : r.IsOf "view" → r.IsNamed head.name → Added cat r (cat.addRelation (.view head.name))
  /-- It is there already, and it is said that this is in order. -/
  | present {head : Head} {root : Nat} {type : String} : cat.isNew r root type head = .ok false → Added cat r cat
  | index {t : Table} {ix : Index} : .table t ∈ cat.relations → r.IsOf "index" → r.IsNamed ix.name →
      r.root? = some ix.root → ix.origin = .statement → ix.Has t.columns →
      Added cat r (cat.replace (t.withIndexes (ix :: t.indexes)))
  | indexPresent : r.IsOf "index" → Added cat r cat
  | trigger {cat' : Catalog} : r.IsOf "trigger" → cat'.relations = cat.relations → Added cat r cat'
  /-- An index that came with its table is rooted. -/
  | rooted {t : Table} {name : List UInt8} {root : Nat} : r.sql.getD [] = [] → .table t ∈ cat.relations →
      r.IsNamed name → r.root? = some root →
      Added cat r (cat.replace { t with
        indexes := t.indexes.map fun ix => if Text.Octet.same ix.name name then { ix with root } else ix })

variable {img : Image} {cat cat' : Catalog} {r : SchemaEntry} {root : Nat}

theorem bind_eq_ok {ε α β : Type} {e : Except ε α} {f : α → Except ε β} {b : β} (h : (e >>= f) = .ok b) :
    ∃ a, e = .ok a ∧ f a = .ok b := by
  cases e with
  | error e => cases h
  | ok a => exact ⟨a, rfl, h⟩

theorem mapError_eq_ok {ε ε' α : Type} {e : Except ε α} {f : ε → ε'} {a : α} (h : e.mapError f = .ok a) : e = .ok a := by
  cases e with
  | error e => cases h
  | ok b =>
    cases h
    rfl

theorem mem_relations_of_relation? {name : List UInt8} {rel : Relation} (h : cat.relation? name = some rel) :
    rel ∈ cat.relations :=
  List.mem_of_find?_eq_some h

theorem mem_relations_of_indexed? {name : List UInt8} {t : Table} (h : cat.indexed? name = some t) :
    .table t ∈ cat.relations := by
  obtain ⟨rel, hrel, htable⟩ := List.mem_filterMap.mp (List.mem_of_find?_eq_some h)
  cases rel with
  | table u =>
    cases htable
    exact hrel
  | virtualTable | view => cases htable

/-- A table or a view is added only where its entry agrees with its statement. -/
theorem isNew_agrees {type : String} {head : Head} {new : Bool} (h : cat.isNew r root type head = .ok new) :
    r.agrees type (nameFor root head) (nameFor root head) = true := by
  unfold isNew at h
  simp only at h
  split at h
  · cases h
  · split at h
    · cases h
    · next hagrees => simpa using hagrees

/-- What is not new is there. -/
theorem isNew_false {type : String} {head : Head} (h : cat.isNew r root type head = .ok false) :
    (cat.relation? (nameFor root head)).isSome := by
  unfold isNew at h
  simp only at h
  split at h
  · cases h
  · split at h
    · cases h
    · cases hrel : cat.relation? (nameFor root head) with
      | some old => rfl
      | none =>
        rw [hrel] at h
        simp only at h
        split at h <;> cases h

theorem addTable_ok {head : Head} {c : Cursor} (hroot : r.root? = some root)
    (hstatement : Reader.statement.run (.start (Sql.Source.ofText (r.sql.getD [])).lexemes) = .ok (.table head, c))
    (h : cat.addTable img r root head c = .ok cat') : Added cat r cat' := by
  obtain ⟨d?, hread, h⟩ := bind_eq_ok h
  obtain ⟨c', hread⟩ := Reader.run'_ok hread
  cases hnew : cat.isNew r root "table" head with
  | error m =>
    rw [hnew] at hread
    cases (Draft.read_ok hread).1
  | ok new =>
    rw [hnew] at hread
    cases new with
    | false =>
      obtain ⟨-, ks, -, -, hbuilt⟩ := Draft.read_ok hread
      cases hbuilt
      cases h
      exact .present hnew
    | true =>
      obtain ⟨-, ks, -, -, hbuilt⟩ := Draft.read_ok hread
      obtain ⟨d, D, rfl, hsql, hdeclared⟩ := Draft.read_declaredAs hstatement hread
      have hof := Draft.Of.start (nameFor root head) root img.isWritable cat.indexNames
      obtain ⟨hof, hrooted⟩ := hbuilt.of (by simpa using hof) d rfl
      cases h
      exact .table hnew hroot hof hrooted ⟨D, hsql, hdeclared, Draft.read_keyedAs hstatement hread hsql⟩

/-- The arguments of a virtual table and the end of its statement are not read behind a fault. -/
theorem virtualTable_strict : Reader.Strict (do Reader.virtualTableArguments; Reader.finished) := by
  intro c a c'' h
  obtain ⟨_, c', harguments, hfinished⟩ := Reader.bind_ok h
  have hfault := Reader.Strict.symbol ";" _ _ _ hfinished
  obtain ⟨_, c₁, hheight, harguments⟩ := Reader.bind_ok harguments
  cases hheight
  obtain ⟨b, c₂, htakes, harguments⟩ := Reader.bind_ok harguments
  rcases Reader.takes_ok htakes with hnone | ⟨rfl, rfl⟩
  · exact hnone
  · obtain ⟨-, rfl⟩ := Reader.pure_ok harguments
    exact hfault

theorem addVirtualTable_ok {head : Head} {c c₀ : Cursor}
    (hstatement : Reader.statement.run (.start (Sql.Source.ofText (r.sql.getD [])).lexemes) = .ok (.virtualTable head, c₀))
    (h : cat.addVirtualTable r root head c = .ok cat') : Added cat r cat' := by
  have hnone : r.declaration? = none := by
    rw [SchemaEntry.declaration?, TableDeclaration.ofSql?, hstatement]
  obtain ⟨⟨_, c'⟩, hread, h⟩ := bind_eq_ok h
  cases hnew : cat.isNew r root "table" head with
  | error m =>
    rw [hnew] at hread
    cases virtualTable_strict _ _ _ hread
  | ok new =>
    rw [hnew] at h
    cases new with
    | false =>
      cases h
      exact .present hnew
    | true =>
      cases h
      exact .virtualTable hnew hnone

theorem addView_ok {head : Head} {query : QueryTerm} {c : Cursor} (h : cat.addView r root head query c = .ok cat') :
    Added cat r cat' := by
  unfold addView at h
  simp only at h
  split at h
  · cases h
  · obtain ⟨new, hnew, h⟩ := bind_eq_ok h
    obtain ⟨hview, hname⟩ := SchemaEntry.agrees_iff (isNew_agrees hnew)
    split at h
    · cases h
    · cases new with
      | false =>
        cases h
        exact .present hnew
      | true =>
        simp only [Bool.not_true, Bool.false_eq_true, if_false] at h
        split at h
        · cases h
        · split at h
          · cases h
          · next hroot =>
            have hzero : root = 0 := by simpa using hroot
            have hsame : nameFor root head = head.name := by rw [hzero]; rfl
            cases h
            exact .view hview (hsame ▸ hname)

theorem addIndex_ok {statement : IndexStatement} (hroot : r.root? = some root)
    (h : cat.addIndex r root statement = .ok cat') : Added cat r cat' := by
  unfold addIndex at h
  extract_lets _ _ found qualified at h
  split at h
  · cases h
  dsimp only [qualified] at h
  split at h
  · cases h
  dsimp only [found] at h
  split at h
  · cases h
  · cases h
  · cases h
  · next t hrelation =>
    have hmem := mem_relations_of_relation? hrelation
    split at h
    · cases h
    · next hagrees =>
      obtain ⟨htype, hname⟩ := SchemaEntry.agrees_iff (by simpa using hagrees)
      split at h
      · split at h
        · cases h
          exact .indexPresent htype
        · cases h
      · split at h
        · cases h
        · obtain ⟨key, -, h⟩ := bind_eq_ok h
          split at h
          · cases h
          · cases h
            refine .index hmem htype ?_ ?_ ?_ fun i hi _ _ _ => ?_
            · split <;> exact hname
            · split <;> exact hroot
            · split <;> rfl
            · obtain ⟨column, hcolumn, hnumber⟩ := List.mem_filterMap.mp hi
              exact List.mem_map.mpr ⟨column, hcolumn, hnumber⟩

/-- A trigger is added only where its entry agrees with its statement. -/
theorem isNewTrigger_agrees {statement : TriggerStatement} {new : Bool} (h : cat.isNewTrigger r statement = .ok new) :
    r.IsOf "trigger" := by
  unfold isNewTrigger at h
  extract_lets _ _ found at h
  split at h
  · cases h
  dsimp only [found] at h
  split at h
  · cases h
  · cases h
  · split at h
    · cases h
    · next hagrees => exact (SchemaEntry.agrees_iff (by simpa using hagrees)).1

theorem addTrigger_ok {statement : TriggerStatement} {c : Cursor} {src : Source}
    (h : cat.addTrigger r statement c src = .ok cat') : Added cat r cat' := by
  unfold addTrigger at h
  obtain ⟨foreign, hread, h⟩ := bind_eq_ok h
  obtain ⟨c', hread⟩ := Reader.run'_ok (mapError_eq_ok hread)
  cases hnew : cat.isNewTrigger r statement with
  | error m =>
    rw [hnew] at hread
    have hstrict := ((Reader.Strict.word "begin").bind _).bind _ _ _ _ hread
    cases hstrict
  | ok new =>
    have htype := isNewTrigger_agrees hnew
    simp only [hnew] at h
    split at h
    · cases h
      exact .trigger htype rfl
    · split at h
      · cases h
      · cases h
        exact .trigger htype rfl

theorem addStatement_ok (hroot : r.root? = some root) (h : cat.addStatement img r root (r.sql.getD []) = .ok cat') :
    Added cat r cat' := by
  obtain ⟨⟨statement, c⟩, hstatement, h⟩ := bind_eq_ok h
  cases statement with
  | table head => exact addTable_ok hroot (mapError_eq_ok hstatement) (mapError_eq_ok h)
  | virtualTable head => exact addVirtualTable_ok (mapError_eq_ok hstatement) (mapError_eq_ok h)
  | trigger t => exact addTrigger_ok h
  | index s =>
    obtain ⟨_, -, h⟩ := bind_eq_ok h
    exact addIndex_ok hroot (mapError_eq_ok h)
  | view head query =>
    obtain ⟨_, -, h⟩ := bind_eq_ok h
    exact addView_ok (mapError_eq_ok h)

theorem rootIndex_ok {pageCount : Nat} {text name : List UInt8} (hsql : r.sql.getD [] = []) (hroot : r.root = some text)
    (hname : r.name = some name) (h : cat.rootIndex pageCount text name = .ok cat') : Added cat r cat' := by
  unfold rootIndex at h
  split at h
  · cases h
  · next t hindexed =>
    split at h
    · cases h
    · next n hnumber =>
      simp only at h
      split at h
      · cases h
      · cases h
        refine .rooted hsql (mem_relations_of_indexed? hindexed) ⟨name, hname, ?_⟩ ?_
        · simp [Text.Octet.same_iff]
        · rw [SchemaEntry.root?, hroot, Option.bind_some, hnumber]

/-- An entry makes one of a few things of a catalog, or it is at fault and changes nothing. Where it states no root,
that is so only if it is not at fault. -/
theorem add_cases {fault : Option Complaint} (h : cat.add img r = (cat', fault))
    (hroot : fault = none ∨ r.root?.isSome) : Added cat r cat' ∨ cat' = cat ∧ fault ≠ none := by
  unfold add at h
  split at h
  · cases h
    exact .inr ⟨rfl, by simp⟩
  · next text htext =>
    have hstated : r.root? = SchemaEntry.pageNumber? text := by
      rw [SchemaEntry.root?, htext, Option.bind_some]
    simp only at h
    split at h
    · split at h
      · next added hadded =>
        obtain ⟨rfl, hfault⟩ := Prod.mk.inj h
        cases hnumber : SchemaEntry.pageNumber? text with
        | none =>
          rw [hnumber] at hstated hfault
          rcases hroot with hnone | hsome
          · rw [hnone] at hfault
            cases hfault
          · rw [hstated] at hsome
            cases hsome
        | some n =>
          rw [hnumber] at hstated hadded
          exact .inl (addStatement_ok hstated hadded)
      · cases h
        exact .inr ⟨rfl, by simp⟩
      · cases h
        exact .inr ⟨rfl, by simp⟩
    · split at h
      · next name hname hsql =>
        split at h
        · next added hadded =>
          cases h
          exact .inl (rootIndex_ok (List.isEmpty_iff.mp hsql) htext hname hadded)
        · cases h
          exact .inr ⟨rfl, by simp⟩
      · cases h
        exact .inr ⟨rfl, by simp⟩

/-! ## Tables and their places -/

/-- Some entry of the name of an index states its root. -/
def Stated (rs : List SchemaEntry) (ix : Index) : Prop :=
  ∃ r ∈ rs, r.IsNamed ix.name ∧ r.root? = some ix.root

/-- The roots of a table and its indexes are those that entries state. Where rows have no number, the primary key is
rooted where the table is. -/
structure Placed (rs : List SchemaEntry) (t : Table) : Prop where
  table : ∃ r ∈ rs, r.IsOf "table" ∧ r.IsNamed t.name ∧ r.root? = some t.root
  key : t.withoutRowid = true → ∀ ix ∈ t.indexes, ix.origin = .primaryKey → ix.root = t.root ∨ Stated rs ix
  other : ∀ ix ∈ t.indexes, ix.origin ≠ .primaryKey → ix.root = 0 ∨ Stated rs ix

/-- All tables of a catalog are in their places. -/
def AllPlaced (rs : List SchemaEntry) (cat : Catalog) : Prop :=
  ∀ t, .table t ∈ cat.relations → Placed rs t

variable {rs : List SchemaEntry}

theorem AllPlaced.nothing (rs : List SchemaEntry) : AllPlaced rs nothing := nofun

theorem mem_replace {t u : Table} (h : .table u ∈ (cat.replace t).relations) : u = t ∨ .table u ∈ cat.relations := by
  obtain ⟨rel, hrel, hput⟩ := List.mem_map.mp h
  cases rel with
  | table v =>
    simp only at hput
    split at hput
    · cases hput
      exact .inl rfl
    · cases hput
      exact .inr hrel
  | virtualTable | view => cases hput

/-- A table that gets another index stays in its place if the root of that index is stated. -/
theorem Placed.withIndex {t : Table} {ix : Index} (h : Placed rs t) (horigin : ix.origin = .statement)
    (hix : Stated rs ix) : Placed rs (t.withIndexes (ix :: t.indexes)) := by
  refine ⟨h.table, fun hrows other hmem hkey => ?_, fun other hmem hkey => ?_⟩
  · rcases List.mem_cons.mp (Table.mem_withIndexes.mp hmem) with rfl | hmem
    · rw [horigin] at hkey
      cases hkey
    · exact h.key hrows other hmem hkey
  · rcases List.mem_cons.mp (Table.mem_withIndexes.mp hmem) with rfl | hmem
    · exact .inr hix
    · exact h.other other hmem hkey

/-- A table stays in its place where an entry roots the indexes of its name. -/
theorem Placed.rooted {t : Table} {name : List UInt8} {root : Nat} (h : Placed rs t) (hr : r ∈ rs)
    (hname : r.IsNamed name) (hroot : r.root? = some root) :
    Placed rs { t with
      indexes := t.indexes.map fun ix => if Text.Octet.same ix.name name then { ix with root } else ix } := by
  have hstated (ix : Index) (hsame : Text.Octet.same ix.name name = true) : Stated rs { ix with root } := by
    obtain ⟨n, hn, hnamed⟩ := hname
    refine ⟨r, hr, ⟨n, hn, ?_⟩, hroot⟩
    rw [Text.Octet.same_iff] at hsame hnamed ⊢
    exact hsame.trans hnamed
  refine ⟨h.table, fun hrows other hmem hkey => ?_, fun other hmem hkey => ?_⟩
  · obtain ⟨ix, hix, rfl⟩ := List.mem_map.mp hmem
    by_cases hsame : Text.Octet.same ix.name name = true
    · rw [if_pos hsame]
      exact .inr (hstated ix hsame)
    · rw [if_neg hsame] at hkey ⊢
      exact h.key hrows ix hix hkey
  · obtain ⟨ix, hix, rfl⟩ := List.mem_map.mp hmem
    by_cases hsame : Text.Octet.same ix.name name = true
    · rw [if_pos hsame]
      exact .inr (hstated ix hsame)
    · rw [if_neg hsame] at hkey ⊢
      exact h.other ix hix hkey

/-- Where a table of a catalog behind an entry comes from. -/
inductive Origin (cat : Catalog) (r : SchemaEntry) : Table → Prop where
  | old {t : Table} : .table t ∈ cat.relations → Origin cat r t
  | declared {head : Head} {root : Nat} {d : Draft} : cat.isNew r root "table" head = .ok true →
      r.root? = some root → d.Of (nameFor root head) root → d.Rooted →
      (∃ D, r.declaration? = some D ∧ d.table.DeclaredAs D ∧ d.table.KeyedAs D) → Origin cat r d.table
  | indexed {t : Table} {ix : Index} : .table t ∈ cat.relations → r.IsNamed ix.name → r.root? = some ix.root →
      ix.origin = .statement → ix.Has t.columns → Origin cat r (t.withIndexes (ix :: t.indexes))
  | rooted {t : Table} {name : List UInt8} {root : Nat} : .table t ∈ cat.relations → r.IsNamed name →
      r.root? = some root → Origin cat r { t with
        indexes := t.indexes.map fun ix => if Text.Octet.same ix.name name then { ix with root } else ix }

/-- Every table is one of the old ones, or it comes from the entry. -/
theorem Added.origin (h : Added cat r cat') {t : Table} (hmem : .table t ∈ cat'.relations) : Origin cat r t := by
  cases h with
  | table hnew hroot hof hrooted hdeclared =>
    rcases List.mem_cons.mp hmem with htable | hmem
    · cases htable
      exact .declared hnew hroot hof hrooted hdeclared
    · exact .old hmem
  | virtualTable | view =>
    rcases List.mem_cons.mp hmem with htable | hmem
    · cases htable
    · exact .old hmem
  | present | indexPresent => exact .old hmem
  | index htable htype hname hroot horigin hhas =>
    rcases mem_replace hmem with rfl | hmem
    · exact .indexed htable hname hroot horigin hhas
    · exact .old hmem
  | trigger htype hsame =>
    rw [hsame] at hmem
    exact .old hmem
  | rooted hsql htable hname hroot =>
    rcases mem_replace hmem with rfl | hmem
    · exact .rooted htable hname hroot
    · exact .old hmem

/-- An entry leaves all tables in their places. -/
theorem AllPlaced.added (h : AllPlaced rs cat) (hr : r ∈ rs) (hadded : Added cat r cat') : AllPlaced rs cat' := by
  intro t hmem
  cases hadded.origin hmem with
  | old hmem => exact h t hmem
  | declared hnew hroot hof hrooted =>
    obtain ⟨htype, hname⟩ := SchemaEntry.agrees_iff (isNew_agrees hnew)
    refine ⟨⟨r, hr, htype, ?_, ?_⟩, fun hrows ix hix hkey => .inl (hrooted hrows ix hix hkey),
      fun ix hix hkey => .inl ((hof.own ix hix).root hkey)⟩
    · rw [hof.name]
      exact hname
    · rw [hof.root]
      exact hroot
  | indexed htable hname hroot horigin => exact (h _ htable).withIndex horigin ⟨r, hr, hname, hroot⟩
  | rooted htable hname hroot => exact (h _ htable).rooted hr hname hroot

/-- A table is what the statement of an entry of its name declares, and has its rows where its key says. -/
def Declared (rs : List SchemaEntry) (t : Table) : Prop :=
  ∃ r ∈ rs, r.IsOf "table" ∧ r.IsNamed t.name ∧ ∃ D, r.declaration? = some D ∧ t.DeclaredAs D ∧ t.KeyedAs D

/-- All tables of a catalog are what statements declare. -/
def AllDeclared (rs : List SchemaEntry) (cat : Catalog) : Prop :=
  ∀ t, .table t ∈ cat.relations → Declared rs t

theorem AllDeclared.nothing (rs : List SchemaEntry) : AllDeclared rs nothing := nofun

/-- An entry leaves all tables as they are declared. -/
theorem AllDeclared.added (h : AllDeclared rs cat) (hr : r ∈ rs) (hadded : Added cat r cat') : AllDeclared rs cat' := by
  intro t hmem
  cases hadded.origin hmem with
  | old hmem => exact h t hmem
  | declared hnew hroot hof hrooted hdeclared =>
    obtain ⟨htype, hname⟩ := SchemaEntry.agrees_iff (isNew_agrees hnew)
    refine ⟨r, hr, htype, ?_, hdeclared⟩
    rw [hof.name]
    exact hname
  | indexed htable hnamed hroot horigin hhas =>
    obtain ⟨r, hr, htype, hname, D, hsql, hdeclared, hkeyed⟩ := h _ htable
    exact ⟨r, hr, htype, hname, D, hsql, hdeclared.withIndexes _, hkeyed.withIndex horigin hhas⟩
  | rooted htable =>
    obtain ⟨r, hr, htype, hname, D, hsql, hdeclared, hkeyed⟩ := h _ htable
    exact ⟨r, hr, htype, hname, D, hsql, hdeclared.withIndexes _, hkeyed.rooted _ _⟩

/-- What has rows and is no table comes from an entry of its name: a view, or what no statement of a table declares. -/
structure OthersStated (rs : List SchemaEntry) (cat : Catalog) : Prop where
  view : ∀ n, .view n ∈ cat.relations → ∃ r ∈ rs, r.IsOf "view" ∧ r.IsNamed n
  virtualTable : ∀ n, .virtualTable n ∈ cat.relations → ∃ r ∈ rs, r.IsOf "table" ∧ r.IsNamed n ∧ r.declaration? = none

theorem OthersStated.nothing (rs : List SchemaEntry) : OthersStated rs nothing := ⟨nofun, nofun⟩

theorem OthersStated.cons_table (h : OthersStated rs cat) (t : Table) :
    OthersStated rs (cat.addRelation (.table t)) where
  view n hmem := h.view n ((List.mem_cons.mp hmem).resolve_left nofun)
  virtualTable n hmem := h.virtualTable n ((List.mem_cons.mp hmem).resolve_left nofun)

theorem OthersStated.replace (h : OthersStated rs cat) (t : Table) : OthersStated rs (cat.replace t) := by
  have hold {rel : Relation} (hrel : rel.table? = none) (hmem : rel ∈ (cat.replace t).relations) :
      rel ∈ cat.relations := by
    obtain ⟨old, hold, rfl⟩ := List.mem_map.mp hmem
    cases old with
    | table u =>
      simp only at hrel
      split at hrel <;> cases hrel
    | virtualTable | view => exact hold
  exact ⟨fun n hmem => h.view n (hold rfl hmem), fun n hmem => h.virtualTable n (hold rfl hmem)⟩

/-- An entry leaves it so. -/
theorem OthersStated.added (h : OthersStated rs cat) (hr : r ∈ rs) (hadded : Added cat r cat') : OthersStated rs cat' := by
  cases hadded with
  | table => exact h.cons_table _
  | virtualTable hnew hnone =>
    refine ⟨fun n hmem => h.view n ((List.mem_cons.mp hmem).resolve_left nofun), fun n hmem => ?_⟩
    rcases List.mem_cons.mp hmem with hsame | hmem
    · cases hsame
      obtain ⟨htype, hname⟩ := SchemaEntry.agrees_iff (isNew_agrees hnew)
      exact ⟨r, hr, htype, hname, hnone⟩
    · exact h.virtualTable n hmem
  | view htype hname =>
    refine ⟨fun n hmem => ?_, fun n hmem => h.virtualTable n ((List.mem_cons.mp hmem).resolve_left nofun)⟩
    rcases List.mem_cons.mp hmem with hsame | hmem
    · cases hsame
      exact ⟨r, hr, htype, hname⟩
    · exact h.view n hmem
  | present | indexPresent => exact h
  | index | rooted => exact h.replace _
  | trigger htype hrelations =>
    exact ⟨fun n hmem => h.view n (hrelations ▸ hmem), fun n hmem => h.virtualTable n (hrelations ▸ hmem)⟩

/-! ## Names -/

/-- Some relation has a name, in any letter case. -/
def Has (cat : Catalog) (name : List UInt8) : Prop :=
  ∃ rel ∈ cat.relations, Text.Octet.same rel.name name = true

theorem relation?_isSome {name : List UInt8} (hname : Text.Octet.spells "sqlite_schema" name = false) :
    (cat.relation? name).isSome ↔ cat.Has name := by
  simp [relation?, hname, Has]

theorem spells_congr {name other : List UInt8} (h : Text.Octet.same name other = true) (word : String) :
    Text.Octet.spells word name = Text.Octet.spells word other := by
  rw [Text.Octet.spells, Text.Octet.spells, Text.Octet.same_iff.mp h]

theorem Has.replace {name : List UInt8} (h : cat.Has name) (t : Table) : (cat.replace t).Has name := by
  obtain ⟨rel, hmem, hsame⟩ := h
  refine ⟨_, List.mem_map.mpr ⟨rel, hmem, rfl⟩, ?_⟩
  cases rel with
  | table u =>
    simp only
    split
    · next hreplaced =>
      rw [Text.Octet.same_iff] at hreplaced hsame ⊢
      exact hreplaced.symm.trans hsame
    · exact hsame
  | virtualTable | view => exact hsame

/-- No entry takes a relation away. -/
theorem Has.added {name : List UInt8} (h : cat.Has name) (hadded : Added cat r cat') : cat'.Has name := by
  cases hadded with
  | table | virtualTable | view =>
    obtain ⟨rel, hmem, hsame⟩ := h
    exact ⟨rel, List.mem_cons_of_mem _ hmem, hsame⟩
  | present | indexPresent => exact h
  | index | rooted => exact h.replace _
  | trigger htype hrelations =>
    unfold Has
    rw [hrelations]
    exact h

theorem isOf_unique {type other : String} (h : r.IsOf type) (h' : r.IsOf other) :
    (Text.Utf8.ofString type).map Text.Octet.lower = (Text.Utf8.ofString other).map Text.Octet.lower := by
  obtain ⟨t, ht, hsame⟩ := h
  obtain ⟨t', ht', hsame'⟩ := h'
  cases ht.symm.trans ht'
  rw [Text.Octet.same_iff] at hsame hsame'
  exact hsame.trans hsame'.symm

/-- An entry of a table has a relation of its name. -/
theorem Has.declared {name : List UInt8} (hname : Text.Octet.spells "sqlite_schema" name = false)
    (hr : r.Declares name) (h : Added cat r cat') : cat'.Has name := by
  have hsame {other : List UInt8} (hother : r.IsNamed other) : Text.Octet.same other name = true := by
    obtain ⟨n, hn, hnamed⟩ := hr.isNamed
    obtain ⟨n', hn', hnamed'⟩ := hother
    cases hn.symm.trans hn'
    rw [Text.Octet.same_iff] at hnamed hnamed' ⊢
    exact hnamed'.trans hnamed.symm
  cases h with
  | table hnew hroot hof hrooted =>
    refine ⟨_, List.mem_cons_self, hsame ?_⟩
    rw [Relation.name, hof.name]
    exact (SchemaEntry.agrees_iff (isNew_agrees hnew)).2
  | virtualTable hnew =>
    exact ⟨_, List.mem_cons_self, hsame (SchemaEntry.agrees_iff (isNew_agrees hnew)).2⟩
  | view htype => exact absurd (isOf_unique hr.isOf htype) (by decide)
  | present hnew =>
    have hother := hsame (SchemaEntry.agrees_iff (isNew_agrees hnew)).2
    obtain ⟨rel, hmem, hrel⟩ := (relation?_isSome ((spells_congr hother _).trans hname)).mp (isNew_false hnew)
    rw [Text.Octet.same_iff] at hother hrel
    exact ⟨rel, hmem, Text.Octet.same_iff.mpr (hrel.trans hother)⟩
  | index _ htype => exact absurd (isOf_unique hr.isOf htype) (by decide)
  | indexPresent htype => exact absurd (isOf_unique hr.isOf htype) (by decide)
  | trigger htype => exact absurd (isOf_unique hr.isOf htype) (by decide)
  | rooted hsql =>
    have hstatement := hr.hasStatement
    rw [hsql] at hstatement
    exact absurd hstatement (by decide)

/-! ## Building -/

/-- Entries make a catalog of another one, one after the other and none of them at fault. -/
inductive Builds (img : Image) : Catalog → List SchemaEntry → Catalog → Prop where
  | nil {cat : Catalog} : Builds img cat [] cat
  | cons {cat cat₁ cat₂ : Catalog} {r : SchemaEntry} {rs : List SchemaEntry} : cat.add img r = (cat₁, none) →
      Builds img cat₁ rs cat₂ → Builds img cat (r :: rs) cat₂

/-- An index that is rooted in a file is rooted where the file has more pages. -/
theorem rootIndex_congr {m n : Nat} {root name : List UInt8} (hle : m ≤ n) (h : cat.rootIndex m root name = .ok cat') :
    cat.rootIndex n root name = .ok cat' := by
  unfold rootIndex at h ⊢
  cases hindexed : cat.indexed? name with
  | none =>
    rw [hindexed] at h
    cases h
  | some t =>
    cases hnumber : SchemaEntry.pageNumber? root with
    | none =>
      rw [hindexed, hnumber] at h
      cases h
    | some k =>
      simp only [hindexed, hnumber] at h ⊢
      split at h
      · cases h
      · next hfree =>
        simp only [Bool.or_eq_true, decide_eq_true_eq] at hfree ⊢
        rwa [if_neg fun hfault => hfree (hfault.imp_left (Or.imp_right (hle.trans_lt ·)))]

/-- Of a file only whether it can be written matters to a statement. -/
theorem addStatement_congr {img' : Image} (hwritable : img'.isWritable = img.isWritable) (root : Nat)
    (sql : List UInt8) : cat.addStatement img' r root sql = cat.addStatement img r root sql := by
  unfold addStatement addTable
  rw [hwritable]

/-- The table of entries is the same in all files that can be written, and in all others. -/
theorem initial_congr {img' : Image} (hwritable : img'.isWritable = img.isWritable) :
    (Sum.initial img').catalog = (Sum.initial img).catalog := by
  unfold Sum.initial add
  simp only [addStatement_congr hwritable]
  have hroot : schemaEntry.root = some [0x31] := rfl
  have hsql : SchemaEntry.hasStatement (schemaEntry.sql.getD []) = true := by decide
  rw [hroot]
  simp only [hsql, if_true]
  split <;> rfl

/-- Of a file only the number of its pages and whether it can be written matters to an entry that is not at fault. -/
theorem add_congr {img' : Image} (hpages : img.pageCount ≤ img'.pageCount) (hwritable : img'.isWritable = img.isWritable)
    (h : cat.add img r = (cat', none)) : cat.add img' r = (cat', none) := by
  have hstatement (root : Nat) (sql : List UInt8) :
      cat.addStatement img' r root sql = cat.addStatement img r root sql :=
    addStatement_congr hwritable root sql
  unfold add at h ⊢
  cases hroot : r.root with
  | none =>
    rw [hroot] at h
    cases h
  | some text =>
    simp only [hroot, hstatement] at h ⊢
    split at h
    · next hsql =>
      rw [if_pos hsql]
      split at h
      · next hadded =>
        obtain ⟨rfl, hfault⟩ := Prod.mk.inj h
        have hwithin : (SchemaEntry.pageNumber? text).any (· ≤ img.pageCount) = true := by
          by_contra hgt
          rw [if_neg hgt] at hfault
          cases hfault
        have hwithin' : (SchemaEntry.pageNumber? text).any (· ≤ img'.pageCount) = true := by
          rw [Option.any_eq_true] at hwithin ⊢
          obtain ⟨n, hn, hle⟩ := hwithin
          exact ⟨n, hn, decide_eq_true ((of_decide_eq_true hle).trans hpages)⟩
        rw [if_pos hwithin']
      · cases h
      · obtain ⟨-, hfault⟩ := Prod.mk.inj h
        simp at hfault
    · next hsql =>
      rw [if_neg hsql]
      split at h
      · next name hname hempty =>
        split at h
        · next hadded =>
          rw [rootIndex_congr hpages hadded]
          exact h
        · cases h
      · cases h

namespace Builds

variable {built : List SchemaEntry}

theorem added (h : cat.add img r = (cat', none)) : Added cat r cat' :=
  (add_cases h (.inl rfl)).resolve_right fun hfault => hfault.2 rfl

/-- What no entry changes holds behind all of them. -/
theorem preserves {P : Catalog → Prop} (h : Builds img cat built cat') (hcat : P cat)
    (hstep : ∀ r ∈ built, ∀ cat cat', P cat → Added cat r cat' → P cat') : P cat' := by
  induction h with
  | nil => exact hcat
  | cons hadd _ ih =>
    exact ih (hstep _ List.mem_cons_self _ _ hcat (added hadd)) fun r hr => hstep r (List.mem_cons_of_mem _ hr)

/-- What entries build in a file they build where the file has more pages. -/
theorem congr {img' : Image} (hpages : img.pageCount ≤ img'.pageCount) (hwritable : img'.isWritable = img.isWritable)
    (h : Builds img cat built cat') : Builds img' cat built cat' := by
  induction h with
  | nil => exact .nil
  | cons hadd _ ih => exact .cons (add_congr hpages hwritable hadd) ih

theorem has (h : Builds img cat built cat') {name : List UInt8} (hcat : cat.Has name) : cat'.Has name :=
  h.preserves (P := fun cat => cat.Has name) hcat fun _ _ _ _ => Has.added

/-- Every table that an entry declares is there. -/
theorem declared (h : Builds img cat built cat') {name : List UInt8}
    (hname : Text.Octet.spells "sqlite_schema" name = false) (hmem : r ∈ built) (hr : r.Declares name) :
    cat'.Has name := by
  induction h with
  | nil => cases hmem
  | cons hadd hrest ih =>
    rcases List.mem_cons.mp hmem with rfl | hmem
    · exact hrest.has (Has.declared hname hr (added hadd))
    · exact ih hmem

/-- What no entry changes holds of a catalog that is built from nothing, with the entry of the table of entries first. -/
theorem invariant {P : Catalog → Prop} (h : Builds img (Sum.initial img).catalog built cat) (hnothing : P nothing)
    (hstep : ∀ r ∈ schemaEntry :: built, ∀ cat cat', P cat → Added cat r cat' → P cat') : P cat := by
  refine h.preserves ?_ fun r hr => hstep r (List.mem_cons_of_mem _ hr)
  have hroot : schemaEntry.root?.isSome = true := by decide
  have hadd : nothing.add img schemaEntry = ((Sum.initial img).catalog, (nothing.add img schemaEntry).2) := rfl
  rcases add_cases hadd (.inr hroot) with hadded | ⟨hsame, -⟩
  · exact hstep _ List.mem_cons_self _ _ hnothing hadded
  · rwa [hsame]

theorem allPlaced (h : Builds img (Sum.initial img).catalog built cat) : AllPlaced (schemaEntry :: built) cat :=
  h.invariant (.nothing _) fun _ hr _ _ hcat hadded => hcat.added hr hadded

theorem allDeclared (h : Builds img (Sum.initial img).catalog built cat) : AllDeclared (schemaEntry :: built) cat :=
  h.invariant (.nothing _) fun _ hr _ _ hcat hadded => hcat.added hr hadded

theorem othersStated (h : Builds img (Sum.initial img).catalog built cat) : OthersStated (schemaEntry :: built) cat :=
  h.invariant (.nothing _) fun _ hr _ _ hcat hadded => hcat.added hr hadded

/-- An entry of the name of a relation, where that is not the table of entries, is one of those that the catalog is built
from. -/
theorem mem_built {name : List UInt8} (hname : Text.Octet.spells "sqlite_schema" name = false)
    (hmaster : Text.Octet.same schemaName name = false) {rel : Relation} (hrel : cat.relation? name = some rel)
    (hr : r ∈ schemaEntry :: built) (hnamed : r.IsNamed rel.name) : r ∈ built ∧ r.IsNamed name := by
  have hsame : Text.Octet.same rel.name name = true := by
    have := List.find?_some hrel
    simpa [hname] using this
  obtain ⟨n, hn, hnamed⟩ := hnamed
  have hnamed : Text.Octet.same name n = true := by
    rw [Text.Octet.same_iff] at hsame hnamed ⊢
    exact hsame.symm.trans hnamed
  rcases List.mem_cons.mp hr with rfl | hr
  · cases hn
    rw [Text.Octet.same_iff] at hnamed
    simp [Text.Octet.same, hnamed] at hmaster
  · exact ⟨hr, n, hn, hnamed⟩

/-- The table of a name is what the statement of an entry of that name declares, and has its rows where its key says. -/
theorem keyedAs (h : Builds img (Sum.initial img).catalog built cat) {name : List UInt8}
    (hname : Text.Octet.spells "sqlite_schema" name = false) (hmaster : Text.Octet.same schemaName name = false)
    {t : Table} (ht : cat.relation? name = some (.table t)) :
    ∃ r ∈ built, r.IsOf "table" ∧ r.IsNamed name ∧ ∃ D, r.declaration? = some D ∧ t.DeclaredAs D ∧ t.KeyedAs D := by
  obtain ⟨r, hr, htype, hnamed, hdeclared⟩ := h.allDeclared t (mem_relations_of_relation? ht)
  obtain ⟨hr, hnamed⟩ := mem_built hname hmaster ht hr hnamed
  exact ⟨r, hr, htype, hnamed, hdeclared⟩

/-- The table of a name is what the statement of an entry of that name declares. -/
theorem declaredAs (h : Builds img (Sum.initial img).catalog built cat) {name : List UInt8}
    (hname : Text.Octet.spells "sqlite_schema" name = false) (hmaster : Text.Octet.same schemaName name = false)
    {t : Table} (ht : cat.relation? name = some (.table t)) :
    ∃ r ∈ built, r.IsOf "table" ∧ r.IsNamed name ∧ ∃ D, r.declaration? = some D ∧ t.DeclaredAs D := by
  obtain ⟨r, hr, htype, hnamed, D, hsql, hdeclared, -⟩ := h.keyedAs hname hmaster ht
  exact ⟨r, hr, htype, hnamed, D, hsql, hdeclared⟩

/-- Where a single entry has a name, and its statement declares a table, the relation of that name is a table. -/
theorem exists_table (h : Builds img (Sum.initial img).catalog built cat) {name : List UInt8}
    (hname : Text.Octet.spells "sqlite_schema" name = false) (hmaster : Text.Octet.same schemaName name = false)
    (hmem : r ∈ built) (hr : r.Declares name) (hsql : r.declaration?.isSome)
    (hunique : ∀ r' ∈ built, r'.IsOf "table" ∨ r'.IsOf "view" → r'.IsNamed name → r' = r) :
    ∃ t, cat.relation? name = some (.table t) := by
  obtain ⟨rel, hrel⟩ := Option.isSome_iff_exists.mp ((relation?_isSome hname).mpr (h.declared hname hmem hr))
  have hrelmem := mem_relations_of_relation? hrel
  cases rel with
  | table t => exact ⟨t, hrel⟩
  | virtualTable n =>
    obtain ⟨r', hr', htype, hnamed, hnone⟩ := h.othersStated.virtualTable n hrelmem
    obtain ⟨hr', hnamed⟩ := mem_built hname hmaster hrel hr' hnamed
    rw [hunique r' hr' (.inl htype) hnamed] at hnone
    simp [hnone] at hsql
  | view n =>
    obtain ⟨r', hr', htype, hnamed⟩ := h.othersStated.view n hrelmem
    obtain ⟨hr', hnamed⟩ := mem_built hname hmaster hrel hr' hnamed
    rw [hunique r' hr' (.inr htype) hnamed] at htype
    exact absurd (isOf_unique hr.isOf htype) (by decide)

/-- The table that entries declare by a name is the relation of that name, and it is in its place: at the root that one
of those entries states. No relation is a view or a virtual table. -/
theorem relation?_eq (h : Builds img (Sum.initial img).catalog built cat) {name : List UInt8}
    (hstored : ∀ rel ∈ cat.relations, rel.table?.isSome) (hname : Text.Octet.spells "sqlite_schema" name = false)
    (hmaster : Text.Octet.same schemaName name = false) (hmem : r ∈ built) (hr : r.Declares name) :
    ∃ t, cat.relation? name = some (.table t) ∧ Placed (schemaEntry :: built) t ∧
      ∃ r' ∈ built, r'.IsOf "table" ∧ r'.IsNamed name ∧ r'.root? = some t.root := by
  obtain ⟨rel, hrel⟩ := Option.isSome_iff_exists.mp ((relation?_isSome hname).mpr (h.declared hname hmem hr))
  have hrelmem := mem_relations_of_relation? hrel
  cases rel with
  | virtualTable n => cases hstored _ hrelmem
  | view n => cases hstored _ hrelmem
  | table t =>
    have ht := h.allPlaced t hrelmem
    obtain ⟨r', hr', htype, hnamed, hroot⟩ := ht.table
    obtain ⟨hr', hnamed⟩ := mem_built hname hmaster hrel hr' hnamed
    exact ⟨t, hrel, ht, r', hr', htype, hnamed, hroot⟩

end Builds

end Catalog
end FirstRow.Store
