import FirstRow.Proofs.Sql.Declaration
import FirstRow.Proofs.Sql.Types
import FirstRow.Sql.Statement

/-!
# Tables that were declared

What a definition makes of the start of a table is what it declares. `Table.DeclaredAs` says it of the table: the last step
settles which columns leave values as they are and looks up the names in computed columns, and nothing else that is
declared of the columns changes with it.
-/
namespace FirstRow.Sql

namespace TableDeclaration

/-- A column stands for the row number: the primary key is declared on it alone, and its type is `INTEGER`. -/
def IsAlias (D : TableDeclaration) (i : Nat) : Prop :=
  D.KeyOn i ∧ ∃ c, D.columns[i]? = some c ∧ ColumnType.IsInteger c.type

/-- The affinity of a column. In a table that insists on types, columns for anything leave values as they are. -/
def affinity (D : TableDeclaration) (c : ColumnDeclaration) : Affinity :=
  if D.strict = true ∧ (ColumnType.ofText c.type).standard = some .any then .blob else (ColumnType.ofText c.type).affinity

/-- What a statement declares, if it defines a table. -/
def ofSql? (sql : List UInt8) : Option TableDeclaration :=
  match Reader.statement.run (.start (Source.ofText sql).lexemes) with
  | .ok (.table _, c) =>
    match Clause.definition.run c with
    | .ok (ks, _) => some (ofClauses ks)
    | .error _ => none
  | _ => none

/-- A clause takes no columns away. -/
theorem extend_columns_ne {D : TableDeclaration} {k : Clause} (h : D.columns ≠ [] ∨ ∃ name type, k = .column name type) :
    (D.extend k).columns ≠ [] := by
  rcases h with h | ⟨name, type, rfl⟩
  · have hmodify (f : ColumnDeclaration → ColumnDeclaration) : (D.modifyLast f).columns ≠ [] := by
      rwa [modifyLast, ne_eq, ← List.length_eq_zero_iff, List.length_modify, List.length_eq_zero_iff]
    cases k <;> first | exact h | exact hmodify _ | simp [extend]
  · simp [extend]

end TableDeclaration

/-- A column of an affinity is what is declared of it, with the names in its expression looked up if it is computed. -/
structure Column.SettledAs (column : Column) (c : ColumnDeclaration) (a : Affinity) (look : Expr → Expr) : Prop where
  name : column.name = c.name
  affinity : column.type.affinity = a
  plain : c.computed = none → column.generation = none ∧ column.value = c.default
  computed : ∀ t storage, c.computed = some (t, storage) →
    column.generation = Draft.generationOf? storage ∧ column.generation.isSome ∧
      column.value = some (look (Draft.computing t).expr)

namespace Table

/-- A table is what is declared, with the names in the expressions of computed columns looked up. -/
structure SettledAs (t : Table) (D : TableDeclaration) (look : Expr → Expr) : Prop where
  length_eq : t.columns.length = D.columns.length
  column : ∀ (i : Nat) c (column : Column), D.columns[i]? = some c → t.columns[i]? = some column →
    column.SettledAs c (D.affinity c) look
  rowidColumn : t.withoutRowid = false → ∀ i, t.rowidColumn = some i ↔ D.IsAlias i
  withoutRowid : t.withoutRowid = D.withoutRowid

/-- An expression of a computed column with its names looked up. -/
def lookedUp (t : Table) (e : Expr) : Expr :=
  (t.resolve .generated none e).result

/-- A table is what is declared. -/
abbrev DeclaredAs (t : Table) (D : TableDeclaration) : Prop :=
  t.SettledAs D t.lookedUp

variable {t : Table} {D : TableDeclaration} {look : Expr → Expr}

theorem lookedUp_congr {u : Table} (h : u.bare = t.bare) : u.lookedUp = t.lookedUp := by
  funext e
  rw [lookedUp, lookedUp, ← resolve_bare (t := u), h, resolve_bare]

/-- Other indexes leave a table as it is declared. -/
theorem SettledAs.withIndexes (h : t.DeclaredAs D) (indexes : List Index) :
    DeclaredAs { t with indexes } D := by
  have hlook : ({ t with indexes } : Table).lookedUp = t.lookedUp := lookedUp_congr rfl
  rw [DeclaredAs, hlook]
  exact ⟨h.length_eq, h.column, h.rowidColumn, h.withoutRowid⟩

end Table

namespace Draft

variable {d d' : Draft} {D : TableDeclaration}

/-! ## Clauses -/

/-- What clauses make of the start of a table is what they declare. -/
theorem Follows.declaredAs {name : List UInt8} {root : Nat} {keepsChecks : Bool} {taken : List (List UInt8)}
    {ks : List Clause} (h : Follows (start name root keepsChecks taken) ks d)
    (hfirst : ∀ k ∈ ks.head?, ∃ name type, k = .column name type) :
    d.core.DeclaredAs (.ofClauses ks) := by
  have hall := h.induction
    (P := fun ks d => (∀ k ∈ ks.head?, ∃ name type, k = .column name type) →
      d.core.DeclaredAs (.ofClauses ks) ∧ (ks ≠ [] → (TableDeclaration.ofClauses ks).columns ≠ []))
    (fun _ => ⟨.start .., fun hne => absurd rfl hne⟩) fun before d k d' ih hk happly hfirst => ?_
  · exact (hall hfirst).1
  · have hbefore : (TableDeclaration.ofClauses before).columns ≠ [] ∨ ∃ name type, k = .column name type := by
      cases before with
      | nil => exact .inr (hfirst k rfl)
      | cons first rest => exact .inl ((ih hfirst).2 (by simp))
    have hdeclared : d.core.DeclaredAs (.ofClauses before) := by
      cases before with
      | nil => exact (ih (by simp)).1
      | cons first rest => exact (ih hfirst).1
    rw [TableDeclaration.ofClauses_concat]
    exact ⟨hdeclared.extend hk hbefore happly, fun _ => TableDeclaration.extend_columns_ne hbefore⟩

/-! ## The last step -/

/-- Where the table insists on types, it is settled which columns leave values as they are. -/
theorem insistOnTypes_ok (h : d.core.DeclaredAs D)
    (hstep : (if d.strict then d.insistOnTypes else (d, none)) = (d', none)) :
    d'.table.SettledAs D id ∧ d'.computed = d.computed := by
  have hsettled (column : Column) (c : ColumnDeclaration) (hdeclared : column.DeclaredAs c) (hstrict : D.strict = false) :
      column.SettledAs c (D.affinity c) id := by
    refine ⟨hdeclared.name, ?_, hdeclared.plain, hdeclared.computed⟩
    rw [hdeclared.type, TableDeclaration.affinity, if_neg (by simp [hstrict])]
  have hrowid (i : Nat) : d.table.rowidColumn = some i ↔ D.IsAlias i := by
    refine (h.rowidColumn i).trans (and_congr_right fun hkey => ?_)
    constructor
    · rintro ⟨column, hcolumn, hinteger⟩
      have hlt := h.key_lt i hkey
      have hc := List.getElem?_eq_getElem hlt
      refine ⟨_, hc, ColumnType.standard_eq_integer_iff.mp ?_⟩
      rw [← (h.column i _ _ hc hcolumn).type]
      exact hinteger
    · rintro ⟨c, hc, hinteger⟩
      obtain ⟨column, hcolumn, hdeclared⟩ := h.exists_column hc
      refine ⟨column, hcolumn, ?_⟩
      rw [hdeclared.type]
      exact ColumnType.standard_eq_integer_iff.mpr hinteger
  split at hstep
  · next hstrict =>
    unfold insistOnTypes at hstep
    split at hstep
    · cases hstep
    · cases hstep
      refine ⟨⟨?_, fun i c column hc hcolumn => ?_, fun _ => hrowid, h.withoutRowid⟩, rfl⟩
      · rw [List.length_mapIdx]
        exact h.length_eq
      · rw [List.getElem?_mapIdx, Option.map_eq_some_iff] at hcolumn
        obtain ⟨column₀, hcolumn₀, rfl⟩ := hcolumn
        have hdeclared := h.column i c column₀ hc hcolumn₀
        refine ⟨hdeclared.name, ?_, hdeclared.plain, hdeclared.computed⟩
        have hstrict : D.strict = true := h.strict.symm.trans hstrict
        simp only [strictColumn, TableDeclaration.affinity, hstrict, hdeclared.type, true_and]
        split <;> rfl
  · next hstrict =>
    cases hstep
    have hstrict : D.strict = false := h.strict.symm.trans (Bool.eq_false_iff.mpr hstrict)
    exact ⟨⟨h.length_eq, fun i c column hc hcolumn => hsettled column c (h.column i c column hc hcolumn) hstrict,
      fun _ => hrowid, h.withoutRowid⟩, rfl⟩

theorem core_dropRowids (d : Draft) (pending : Option String) : (d.dropRowids pending).1.core =
    { d.core with
      columns := d.core.columns.map fun c => { c with notNull := c.notNull || c.inKey }
      rowidColumn := none } := by
  unfold dropRowids
  simp only
  split
  · exact core_addIndex _ _ _ _
  · rfl

/-- Without row numbers, columns of the primary key are never null, which is not declared of them. -/
theorem dropRowids_settled (h : d.table.SettledAs D id) (hrows : d.table.withoutRowid = true) (pending : Option String) :
    (d.dropRowids pending).1.table.SettledAs D id := by
  have hcore := d.core_dropRowids pending
  generalize (d.dropRowids pending).1 = e at hcore
  have hcolumns : e.table.columns = d.table.columns.map _ := congrArg Core.columns hcore
  have hwithout : e.table.withoutRowid = d.table.withoutRowid := congrArg Core.withoutRowid hcore
  refine ⟨?_, fun i c column hc hcolumn => ?_, fun hrows' => ?_, hwithout.trans h.withoutRowid⟩
  · rw [hcolumns, List.length_map, h.length_eq]
  · rw [hcolumns, List.getElem?_map, Option.map_eq_some_iff] at hcolumn
    obtain ⟨column₀, hcolumn₀, rfl⟩ := hcolumn
    have hsettled := h.column i c column₀ hc hcolumn₀
    exact ⟨hsettled.name, hsettled.affinity, hsettled.plain, hsettled.computed⟩
  · rw [hwithout, hrows] at hrows'
    cases hrows'

/-- The names in some expressions were looked up, each for the column of its number. -/
structure Looked (ps : List (Nat × Term)) (d d' : Draft) : Prop where
  bare : d'.table.bare = d.table.bare
  other : ∀ i, (∀ p ∈ ps, p.1 ≠ i) → d'.table.columns[i]? = d.table.columns[i]?
  value : ∀ p ∈ ps, ∀ column, d'.table.columns[p.1]? = some column →
    ∃ q ∈ ps, q.1 = p.1 ∧ column.value = some (d.table.lookedUp q.2.expr)

theorem bare_modifyColumn (d : Draft) (i : Nat) (v : Option Expr) :
    (d.modifyColumn i fun c => { c with value := v }).table.bare = d.table.bare := by
  have hcolumns : (d.table.columns.modify i fun c => { c with value := v }).map (fun c => { c with value := none }) =
      d.table.columns.map fun c => { c with value := none } := by
    refine List.ext_getElem? fun j => ?_
    simp only [List.getElem?_map, List.getElem?_modify]
    cases d.table.columns[j]? with
    | none => rfl
    | some c =>
      simp only [Option.map_eq_map, Option.map_some]
      split <;> rfl
  simp only [Table.bare, modifyColumn, hcolumns]

/-- Look up the names in the expression of a column. -/
def lookUp (s : Draft × Findings) (p : Nat × Term) : Draft × Findings :=
  (s.1.modifyColumn p.1 fun c => { c with value := some (s.1.table.resolveTerm .generated s.2 p.2).2 },
    (s.1.table.resolveTerm .generated s.2 p.2).1)

/-- Where no fault is left, the names in all expressions were looked up. -/
theorem looked_of_foldl {ps : List (Nat × Term)} {s : Draft × Findings} (h : (ps.foldl lookUp s).2.fault = none) :
    s.2.fault = none ∧ Looked ps s.1 (ps.foldl lookUp s).1 := by
  induction ps generalizing s with
  | nil => exact ⟨h, rfl, fun _ _ => rfl, by simp⟩
  | cons p ps ih =>
    obtain ⟨hnone, hlooked⟩ := ih h
    obtain ⟨hnone, hvalue⟩ := Table.resolveTerm_ok hnone
    have hbare : (lookUp s p).1.table.bare = s.1.table.bare := s.1.bare_modifyColumn p.1 _
    refine ⟨hnone, hlooked.bare.trans hbare, fun j hj => (hlooked.other j fun q hq => hj q (List.mem_cons_of_mem p hq)).trans ?_,
      fun q hq column hcolumn => ?_⟩
    · simp only [lookUp, modifyColumn, List.getElem?_modify, if_neg (hj p List.mem_cons_self), Option.map_eq_map,
        Option.map_id']
    · by_cases hlater : ∃ q' ∈ ps, q'.1 = q.1
      · obtain ⟨q', hq', hsame⟩ := hlater
        obtain ⟨q'', hq'', hsame', hlook⟩ := hlooked.value q' hq' column (hsame ▸ hcolumn)
        rw [Table.lookedUp_congr hbare] at hlook
        exact ⟨q'', List.mem_cons_of_mem p hq'', hsame'.trans hsame, hlook⟩
      · -- the column of this expression is not changed later
        obtain rfl : q = p := (List.mem_cons.mp hq).resolve_right fun hq => hlater ⟨q, hq, rfl⟩
        have hcolumn := (hlooked.other q.1 fun q' hq' hsame => hlater ⟨q', hq', hsame⟩).symm.trans hcolumn
        simp only [lookUp, modifyColumn, List.getElem?_modify, if_true, Option.map_eq_map, Option.map_eq_some_iff]
          at hcolumn
        obtain ⟨column₀, -, rfl⟩ := hcolumn
        exact ⟨q, List.mem_cons_self, rfl, congrArg some hvalue⟩

/-- Where names were looked up in the expressions of all computed columns, a table is what is declared. -/
theorem Looked.declaredAs {ps : List (Nat × Term)} (h : Looked ps d d') (hd : d.table.SettledAs D id)
    (hps : ∀ p, p ∈ ps ↔ ∃ c t storage, D.columns[p.1]? = some c ∧ c.computed = some (t, storage) ∧ p.2 = computing t) :
    d'.table.DeclaredAs D := by
  have hcolumns : d'.table.columns.map (fun c => { c with value := none }) =
      d.table.columns.map fun c => { c with value := none } := congrArg Table.columns h.bare
  have hwithout : d'.table.withoutRowid = d.table.withoutRowid := by
    simpa only [Table.bare] using congrArg Table.withoutRowid h.bare
  have hrowid : d'.table.rowidColumn = d.table.rowidColumn := by
    simpa only [Table.bare] using congrArg Table.rowidColumn h.bare
  refine ⟨?_, fun i c column hc hcolumn => ?_, ?_, hwithout.trans hd.withoutRowid⟩
  · have hlength := congrArg List.length hcolumns
    rw [List.length_map, List.length_map] at hlength
    exact hlength.trans hd.length_eq
  · have hsame := congrArg (·[i]?) hcolumns
    simp only [List.getElem?_map, hcolumn, Option.map_some] at hsame
    obtain ⟨column₀, hcolumn₀, hsame⟩ := Option.map_eq_some_iff.mp hsame.symm
    have hsettled := hd.column i c column₀ hc hcolumn₀
    have hname := congrArg Column.name hsame
    have htype := congrArg Column.type hsame
    have hgeneration := congrArg Column.generation hsame
    simp only at hname htype hgeneration
    refine ⟨hname ▸ hsettled.name, htype ▸ hsettled.affinity, fun hplain => ?_, fun t storage hcomputed => ?_⟩
    · have hother : ∀ p ∈ ps, p.1 ≠ i := by
        rintro p hp rfl
        obtain ⟨c', t, storage, hc', hcomputed, -⟩ := (hps p).mp hp
        rw [hc, Option.some.injEq] at hc'
        rw [← hc', hplain] at hcomputed
        cases hcomputed
      rw [h.other i hother, hcolumn₀, Option.some.injEq] at hcolumn
      exact hcolumn ▸ hsettled.plain hplain
    · obtain ⟨hstorage, hsome, -⟩ := hsettled.computed t storage hcomputed
      obtain ⟨q, hq, hsamePlace, hvalue⟩ := h.value (i, computing t) ((hps _).mpr ⟨c, t, storage, hc, hcomputed, rfl⟩)
        column hcolumn
      obtain ⟨c', t', storage', hc', hcomputed', hterm⟩ := (hps q).mp hq
      rw [hsamePlace, hc, Option.some.injEq] at hc'
      rw [← hc', hcomputed, Option.some.injEq, Prod.mk.injEq] at hcomputed'
      refine ⟨hgeneration ▸ hstorage, hgeneration ▸ hsome, ?_⟩
      rw [hvalue, hterm, ← hcomputed'.1, Table.lookedUp_congr h.bare]
  · intro hrows i
    rw [hrowid]
    exact hd.rowidColumn (hwithout ▸ hrows) i

/-- What the last step makes of a draft of what is declared is the table that is declared. -/
theorem finish_declaredAs (h : d.core.DeclaredAs D) (hfinish : d.finish none = (d', none)) : d'.table.DeclaredAs D := by
  unfold finish at hfinish
  simp only at hfinish
  have hstrict := fun e (he : (if d.strict then d.insistOnTypes else (d, none)) = (e, none)) => insistOnTypes_ok h he
  generalize (if d.strict then d.insistOnTypes else (d, none)) = step at hfinish hstrict
  obtain ⟨e, fault⟩ := step
  simp only at hfinish
  split at hfinish
  · next hsome =>
    rw [show fault = none from congrArg Prod.snd hfinish] at hsome
    cases hsome
  · next hnone =>
    obtain ⟨hsettled, hcomputed⟩ := hstrict e (Prod.ext rfl (by simpa using hnone))
    split at hfinish
    · cases hfinish
    split at hfinish
    · cases hfinish
    have hdropped : (if e.table.withoutRowid then e.dropRowids none else (e, none)).1.table.SettledAs D id ∧
        (if e.table.withoutRowid then e.dropRowids none else (e, none)).1.computed = d.computed := by
      split
      · next hrows => exact ⟨dropRowids_settled hsettled hrows none, (congrArg Core.computed (e.core_dropRowids none)).trans hcomputed⟩
      · exact ⟨hsettled, hcomputed⟩
    generalize (if e.table.withoutRowid then e.dropRowids none else (e, none)) = step at hfinish hdropped
    split at hfinish
    · cases hfinish
    · obtain ⟨rfl, hfault⟩ := Prod.mk.inj hfinish
      refine Looked.declaredAs (looked_of_foldl hfault).2 hdropped.1 fun p => ?_
      rw [hdropped.2]
      exact h.computed p

/-- A definition that is read makes the table that it declares. -/
theorem read_declaredAs {sql name : List UInt8} {root : Nat} {keepsChecks : Bool} {taken : List (List UInt8)}
    {head : Head} {c c' : Cursor} {r : Option Draft}
    (hstatement : Reader.statement.run (.start (Source.ofText sql).lexemes) = .ok (.table head, c))
    (hread : (read (some (start name root keepsChecks taken))).run c = .ok (r, c')) :
    ∃ e D, r = some e ∧ TableDeclaration.ofSql? sql = some D ∧ e.table.DeclaredAs D := by
  obtain ⟨-, ks, c'', hdefinition, hbuilt⟩ := read_ok hread
  have hfirst := Clause.definition_begins hdefinition
  have hsql : TableDeclaration.ofSql? sql = some (.ofClauses ks) := by
    unfold TableDeclaration.ofSql?
    rw [hstatement]
    simp only [hdefinition]
  cases hbuilt with
  | table hfollows hfinish => exact ⟨_, _, rfl, hsql, finish_declaredAs (hfollows.declaredAs hfirst) hfinish⟩

end Draft
end FirstRow.Sql
