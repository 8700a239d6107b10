import FirstRow.Proofs.Sql.Itemized
import FirstRow.Proofs.Sql.Declared

/-!
# What items declare

A respelling of a definition declares what the definition does: the same columns in the same order with types and
defaults that mean the same, and the same keys (`TableDeclaration.Alike`). What a definition declares is put together of
what its columns declare, each alone, and of the keys and options behind them (`TableDeclaration.append`).
-/
namespace FirstRow.Sql

open Text.Octet (fold)

/-! ## Declarations of two texts -/

/-- Two columns are declared with one name, and mean the same. -/
structure ColumnDeclaration.Alike (names : List (List UInt8)) (c c' : ColumnDeclaration) : Prop where
  name : c.name = c'.name
  type : (ColumnType.ofText c.type).outline = (ColumnType.ofText c'.type).outline
  default : c.default.map (Expr.outline names) = c'.default.map (Expr.outline names)
  computed : Option.Rel (fun x x' => Term.Alike names x.1 x'.1 ∧ x.2.map fold = x'.2.map fold) c.computed c'.computed

/-- Two tables are declared with columns that mean the same and with the same keys and options. -/
structure TableDeclaration.Alike (names : List (List UInt8)) (D D' : TableDeclaration) : Prop where
  columns : List.Forall₂ (ColumnDeclaration.Alike names) D.columns D'.columns
  keys : D.keys = D'.keys
  withoutRowid : D.withoutRowid = D'.withoutRowid
  strict : D.strict = D'.strict

theorem forall₂_modify {α : Type} {R : α → α → Prop} {l l' : List α} {f f' : α → α}
    (hf : ∀ a a', R a a' → R (f a) (f' a')) (h : List.Forall₂ R l l') (i : Nat) :
    List.Forall₂ R (l.modify i f) (l'.modify i f') := by
  induction h generalizing i with
  | nil => simp
  | cons hab hrest ih =>
    cases i with
    | zero => exact .cons (hf _ _ hab) hrest
    | succ i => exact .cons hab (ih i)

namespace TableDeclaration.Alike

variable {names : List (List UInt8)} {D D' : TableDeclaration}

theorem last (h : D.Alike names D') : D.last = D'.last := by
  rw [TableDeclaration.last, TableDeclaration.last, h.columns.length_eq]

theorem named? (h : D.Alike names D') {n n' : Option (List UInt8)} (hn : n.map fold = n'.map fold) :
    n.bind D.named? = n'.bind D'.named? := by
  have hcolumns : D.columns.map ColumnDeclaration.name = D'.columns.map ColumnDeclaration.name := by
    rw [← List.forall₂_eq_eq_eq, List.forall₂_map_left_iff, List.forall₂_map_right_iff]
    exact h.columns.imp fun _ _ h => h.name
  have hnamed (D : TableDeclaration) (m : List UInt8) :
      D.named? m = (D.columns.map ColumnDeclaration.name).findIdx? fun x => Text.Octet.same x (fold m) := by
    rw [List.findIdx?_map]
    unfold TableDeclaration.named?
    simp [Function.comp_def]
  have hfold (D : TableDeclaration) (m : Option (List UInt8)) : m.bind D.named? =
      (m.map fold).bind fun m => (D.columns.map ColumnDeclaration.name).findIdx? fun x => Text.Octet.same x m := by
    cases m with
    | none => rfl
    | some m => exact hnamed D m
  rw [hfold, hfold, hn, hcolumns]

theorem modifyLast (h : D.Alike names D') {f f' : ColumnDeclaration → ColumnDeclaration}
    (hf : ∀ c c', ColumnDeclaration.Alike names c c' → ColumnDeclaration.Alike names (f c) (f' c')) :
    (D.modifyLast f).Alike names (D'.modifyLast f') := by
  refine ⟨?_, h.keys, h.withoutRowid, h.strict⟩
  unfold TableDeclaration.modifyLast
  rw [h.last]
  exact forall₂_modify hf h.columns _

/-- A clause declares the same in both. -/
theorem extend (h : D.Alike names D') {k k' : Clause} (hk : k.Alike names k') :
    (D.extend k).Alike names (D'.extend k') := by
  cases hk with
  | column n htype => exact { h with columns := List.rel_append h.columns (.cons ⟨rfl, htype, rfl, .none⟩ .nil) }
  | default ht => exact h.modifyLast fun _ _ hc => { hc with default := congrArg some ht.expr }
  | generated ht hstorage => exact h.modifyLast fun _ _ hc => { hc with computed := .some ⟨ht, hstorage⟩ }
  | primaryKey => exact { h with keys := by simp only [TableDeclaration.extend, h.keys, h.last] }
  | @tablePrimaryKey terms terms' _ _ hterms =>
    have hcolumns : terms.map (fun k => k.name?.bind D.named?) = terms'.map fun k => k.name?.bind D'.named? := by
      rw [← List.forall₂_eq_eq_eq, List.forall₂_map_left_iff, List.forall₂_map_right_iff]
      exact hterms.imp fun _ _ hk => h.named? hk.name?
    exact { h with keys := by simp only [TableDeclaration.extend, h.keys, hcolumns] }
  | withoutRowid => exact { h with withoutRowid := rfl }
  | strict => exact { h with strict := rfl }
  | _ => exact h

end TableDeclaration.Alike

theorem TableDeclaration.ofClauses_alike {names : List (List UInt8)} {ks ks' : List Clause}
    (h : List.Forall₂ (Clause.Alike names) ks ks') : (ofClauses ks).Alike names (ofClauses ks') := by
  exact List.rel_foldl (P := TableDeclaration.Alike names) (R := Clause.Alike names)
    (fun _ _ hD _ _ hk => hD.extend hk) ⟨.nil, rfl, rfl, rfl⟩ h

namespace Clause

open Reader

variable {κ : Licence} {s : Spot} {c c' c₁ : Cursor}

/-- The clauses of a definition are read of a respelling as they are of the text. -/
theorem readAll_agrees (hκ : κ.ends = false) {fuel : Nat} {e : Expecting} (hs : e.Fits s) {ks : List Clause}
    (hc : Cursor.Alike κ s c c') (hrun : (readAll nested fuel e).run c = .ok (ks, c₁)) :
    ∃ ks' c₁', (readAll nested fuel e).run c' = .ok (ks', c₁') ∧ List.Forall₂ (Clause.Alike κ.names) ks ks' := by
  induction fuel generalizing e s ks c c' c₁ with
  | zero => cases hrun
  | succ fuel ih =>
    obtain ⟨⟨k?, next⟩, c₂, hstep, -⟩ := bind_ok hrun
    obtain ⟨⟨k?', _⟩, c₂', s₂, hstep', hc₂, hclause, rfl, hfits⟩ := step_agrees hκ hs c c' _ c₂ hc hstep
    have hrun := (run_readAll hstep).symm.trans hrun
    rw [run_readAll hstep']
    have hc₃ : Cursor.Alike κ s₂ { c₂ with height := next.height } { c₂' with height := next.height } :=
      { hc₂ with height := rfl }
    cases hclause with
    | none => exact ih hfits hc₃ hrun
    | some hk =>
      by_cases hnext : next = .ending
      · simp only [if_pos hnext] at hrun ⊢
        obtain ⟨_, c₃, hlast, hrun⟩ := bind_ok hrun
        obtain ⟨rfl, -⟩ := pure_ok hrun
        obtain ⟨_, c₃', _, hlast', -⟩ := step_agrees hκ hfits _ _ _ c₃ hc₃ hlast
        refine ⟨[], c₃', ?_, .nil⟩
        rw [StateT.run_bind, hlast']
        rfl
      · simp only [if_neg hnext] at hrun ⊢
        obtain ⟨rest, c₃, hrest, hrun⟩ := bind_ok hrun
        obtain ⟨rfl, -⟩ := pure_ok hrun
        obtain ⟨rest', c₃', hrest', halike⟩ := ih hfits hc₃ hrest
        refine ⟨_ :: rest', c₃', ?_, .cons hk halike⟩
        rw [StateT.run_bind, hrest']
        rfl

theorem definition_agrees (hκ : κ.ends = false) {ks : List Clause} (hc : Cursor.Alike κ .start c c')
    (hrun : definition.run c = .ok (ks, c₁)) :
    ∃ ks' c₁', definition.run c' = .ok (ks', c₁') ∧ List.Forall₂ (Clause.Alike κ.names) ks ks' := by
  obtain ⟨_, _, hheight, hrun⟩ := bind_ok hrun
  cases hheight
  obtain ⟨_, _, hget, hrun⟩ := bind_ok hrun
  cases hget
  have hc₂ : Cursor.Alike κ .start { c with height := Expecting.body.height }
      { c' with height := Expecting.body.height } := { hc with height := rfl }
  have hread := readAll_agrees hκ (e := .body) rfl hc₂ hrun
  simp only [hc.size] at hread
  exact hread

end Clause

/-- A respelling of a definition declares what it does. -/
theorem TableDeclaration.ofSql?_respelled {names : List (List UInt8)} {sql sql' : List UInt8} {D : TableDeclaration}
    (h : Respells ⟨names, none⟩ .start (Source.ofText sql).lexemes (Source.ofText sql').lexemes)
    (hD : ofSql? sql = some D) : ∃ D', ofSql? sql' = some D' ∧ D.Alike names D' := by
  unfold ofSql? at hD
  split at hD
  · next head c hstatement =>
    split at hD
    · next ks c₁ hdefinition =>
      cases hD
      have hκ : (⟨names, none⟩ : Licence).ends = false := rfl
      obtain ⟨_, c', _, hstatement', hc, rfl, _, head', hhead, rfl, -⟩ :=
        Reader.Agrees.statement _ _ _ c (Cursor.Alike.start hκ h) hstatement
      obtain ⟨ks', c₁', hdefinition', halike⟩ := Clause.definition_agrees hκ hc hdefinition
      refine ⟨.ofClauses ks', ?_, ofClauses_alike halike⟩
      unfold ofSql?
      simp only [hstatement', hdefinition']
    · cases hD
  · cases hD

/-! ## Clauses of items -/

namespace Clause

open Reader

variable {c : Cursor} {ks : List Clause} {item : List Lexeme}

theorem ReadsAlone.onColumn {behind : Bool} {e : Expecting} (h : ReadsAlone (.columnEnd behind) e c ks)
    (he : e = .columnEnd behind) : ∀ k ∈ ks, k.IsOnColumn := by
  induction h with
  | done => nofun
  | @step e e₁ _ _ k? ks hstep hwithin _ ih =>
    subst he
    have hreturns : Returns (fun x => x.2.Within (.columnEnd behind) →
        x.2 = .columnEnd behind ∧ ∀ k, x.1 = some k → k.IsOnColumn) (Clause.step nested (.columnEnd behind)) := by
      refine .bind fun _ => .ite ((columnConstraint_onColumn nested).behind fun k hk => .pure fun _ => ?_) ?_
      · exact ⟨rfl, fun _ h => Option.some.inj h ▸ hk⟩
      · exact .bind fun _ => .ite (.pure nofun) (.bind fun _ => .pure nofun)
    obtain ⟨rfl, hk⟩ := hreturns _ _ _ hstep hwithin
    intro k hmem
    rcases List.mem_append.mp hmem with h | h
    · exact hk k (Option.mem_toList.mp h)
    · exact ih rfl k h

/-- The first clause of a column is its name and its type, and the others constrain it. -/
theorem IsColumn.clauses (h : IsColumn item ks) :
    ∃ name type rest, ks = .column name type :: rest ∧ ∀ k ∈ rest, k.IsOnColumn := by
  obtain ⟨-, behind, c, -, halone⟩ := h
  have hreturns : Returns (fun x => ∃ name type, x = (some (.column name type), .columnEnd behind))
      (Clause.step nested (.column behind)) := .bind fun n => .bind fun t => .pure ⟨n, t, rfl⟩
  cases halone with
  | step hstep _ hrest =>
    obtain ⟨name, type, heq⟩ := hreturns _ _ _ hstep
    cases heq
    exact ⟨name, type, _, rfl, hrest.onColumn rfl⟩

theorem ReadsAlone.onTable {e : Expecting} (h : ReadsAlone .constraintEnd e c ks) (he : e.Within .constraintEnd) :
    ∀ k ∈ ks, k.IsOnTable := by
  induction h with
  | done => nofun
  | @step e e₁ _ _ k? ks hstep hwithin _ ih =>
    have hread : Returns (fun x => ∀ k, x.1 = some k → k.IsOnTable)
        (do return (some (← Reader.tableConstraint nested), Expecting.constraintEnd)) :=
      (tableConstraint_onTable nested).behind fun k hk => .pure fun _ h => Option.some.inj h ▸ hk
    have hreturns : Returns (fun x => ∀ k, x.1 = some k → k.IsOnTable) (Clause.step nested e) := by
      cases he with
      | constraint => exact hread
      | nextConstraint => exact hread
      | constraintEnd => exact .bind fun _ => .ite (.pure nofun) <| .bind fun _ => .ite (.pure nofun) (.pure nofun)
    intro k hmem
    rcases List.mem_append.mp hmem with h | h
    · exact hreturns _ _ _ hstep k (Option.mem_toList.mp h)
    · exact ih hwithin k h

theorem AreConstraints.clauses (h : AreConstraints item ks) : ∀ k ∈ ks, k.IsOnTable := by
  obtain ⟨-, e, c, he, -, halone⟩ := h
  rcases he with rfl | rfl
  · exact halone.onTable .constraint
  · exact halone.onTable .nextConstraint

end Clause

/-! ## What items declare -/

namespace TableDeclaration

/-- What is declared behind other columns. -/
def append (D E : TableDeclaration) : TableDeclaration where
  columns := D.columns ++ E.columns
  keys := D.keys ++ E.keys.map fun k => { k with columns := k.columns.map (·.map (D.columns.length + ·)) }
  withoutRowid := D.withoutRowid || E.withoutRowid
  strict := D.strict || E.strict

variable {D E : TableDeclaration} {ks : List Clause}

theorem last_append (hE : E.columns ≠ []) : (D.append E).last = D.columns.length + E.last := by
  have hpos := List.length_pos_iff.mpr hE
  simp only [last, append, List.length_append]
  omega

theorem modifyLast_append (hE : E.columns ≠ []) (f : ColumnDeclaration → ColumnDeclaration) :
    (D.append E).modifyLast f = D.append (E.modifyLast f) := by
  have hmodify : (D.columns ++ E.columns).modify (D.append E).last f = D.columns ++ E.columns.modify E.last f := by
    refine List.ext_getElem? fun j => ?_
    rw [last_append hE]
    simp only [List.getElem?_modify, List.getElem?_append]
    by_cases hj : j < D.columns.length
    · have hother : D.columns.length + E.last ≠ j := by omega
      simp [hj, hother]
    · have hplace : D.columns.length + E.last = j ↔ E.last = j - D.columns.length := by omega
      simp [hj, hplace]
  simp only [modifyLast, append] at hmodify ⊢
  rw [hmodify]

/-- What constrains a column behind others is declared of it as if it were alone. -/
theorem extend_append (hE : E.columns ≠ []) {k : Clause} (hk : k.IsOnColumn) :
    (D.append E).extend k = D.append (E.extend k) := by
  cases k with
  | default t => exact modifyLast_append hE _
  | generated t storage => exact modifyLast_append hE _
  | primaryKey descending conflict counts =>
    have hlast : (D.append E).last = D.columns.length + E.last := last_append hE
    simp only [extend, hlast]
    simp [append]
  | _ => first | exact hk.elim | rfl

theorem length_extend {k : Clause} (hk : k.IsOnColumn) : (E.extend k).columns.length = E.columns.length := by
  cases k <;> first | exact hk.elim | rfl | simp [extend, modifyLast]

/-- What constrains a column behind others is declared of it as if it were alone. -/
theorem foldl_append (hE : E.columns ≠ []) (hks : ∀ k ∈ ks, k.IsOnColumn) :
    ks.foldl extend (D.append E) = D.append (ks.foldl extend E) ∧
      (ks.foldl extend E).columns.length = E.columns.length := by
  induction ks generalizing E with
  | nil => exact ⟨rfl, rfl⟩
  | cons k ks ih =>
    have hk := hks k List.mem_cons_self
    have hlength : (E.extend k).columns.length = E.columns.length := length_extend hk
    have hne : (E.extend k).columns ≠ [] := List.length_pos_iff.mp (hlength ▸ List.length_pos_iff.mpr hE)
    obtain ⟨happend, hsame⟩ := ih hne fun k hk => hks k (List.mem_cons_of_mem _ hk)
    rw [List.foldl_cons, List.foldl_cons, extend_append hE hk]
    exact ⟨happend, hsame.trans hlength⟩

variable {item : List Lexeme}

/-- A column is declared behind others as it is declared alone. -/
theorem foldl_column (h : Clause.IsColumn item ks) : ks.foldl extend D = D.append (ofClauses ks) := by
  obtain ⟨name, type, rest, rfl, hrest⟩ := h.clauses
  have hfirst : D.extend (.column name type) = D.append (empty.extend (.column name type)) := by
    simp [extend, append, empty]
  rw [List.foldl_cons, hfirst]
  exact (foldl_append (by simp [extend]) hrest).1

/-- Of a column one column is declared. -/
theorem exists_column (h : Clause.IsColumn item ks) : ∃ c, (ofClauses ks).columns = [c] := by
  obtain ⟨name, type, rest, rfl, hrest⟩ := h.clauses
  have hlength := (foldl_append (D := empty) (E := empty.extend (.column name type)) (by simp [extend]) hrest).2
  exact List.length_eq_one_iff.mp hlength

/-- What columns declare, each alone. -/
def ofColumns (kss : List (List Clause)) : TableDeclaration :=
  (kss.map ofClauses).foldl append empty

theorem ofClauses_flatten {items : List (List Lexeme)} {kss : List (List Clause)}
    (h : List.Forall₂ Clause.IsColumn items kss) : ofClauses kss.flatten = ofColumns kss := by
  suffices hfold : ∀ D : TableDeclaration, kss.flatten.foldl extend D = (kss.map ofClauses).foldl append D from hfold empty
  induction h with
  | nil => exact fun _ => rfl
  | cons hitem _ ih =>
    intro D
    rw [List.flatten_cons, List.foldl_append, foldl_column hitem, ih]
    rfl

/-- The key that a constraint on the table declares. -/
def tableKey? (D : TableDeclaration) : Clause → Option KeyDeclaration
  | .tablePrimaryKey terms _ _ => some ⟨terms.map fun k => k.name?.bind D.named?, false⟩
  | _ => none

/-- Constraints on the table add keys and nothing else. -/
theorem foldl_constraints (hks : ∀ k ∈ ks, k.IsOnTable) :
    ks.foldl extend D = { D with keys := D.keys ++ ks.filterMap D.tableKey? } := by
  induction ks generalizing D with
  | nil => simp
  | cons k ks ih =>
    have hextend : D.extend k = { D with keys := D.keys ++ (D.tableKey? k).toList } := by
      have hk := hks k List.mem_cons_self
      cases k <;> first | exact hk.elim | simp [extend, tableKey?]
    have hsame (keys : List KeyDeclaration) : tableKey? { D with keys } = D.tableKey? := by
      funext k
      cases k <;> rfl
    rw [List.foldl_cons, ih fun k hk => hks k (List.mem_cons_of_mem _ hk), hextend, List.filterMap_cons]
    cases D.tableKey? k <;> simp [hsame]

/-- Options add no columns and no keys. -/
theorem foldl_options (hks : ∀ k ∈ ks, k.IsOption) :
    (ks.foldl extend D).columns = D.columns ∧ (ks.foldl extend D).keys = D.keys := by
  induction ks generalizing D with
  | nil => exact ⟨rfl, rfl⟩
  | cons k ks ih =>
    obtain ⟨hcolumns, hkeys⟩ := ih (D := D.extend k) fun k hk => hks k (List.mem_cons_of_mem _ hk)
    have hk := hks k List.mem_cons_self
    rw [List.foldl_cons, hcolumns, hkeys]
    cases k <;> first | exact hk.elim | exact ⟨rfl, rfl⟩

/-- What a definition declares is put together of what its items declare: of each column one column, with its keys, and
behind the columns the keys on the table. -/
structure OfItems (D : TableDeclaration) (kss css : List (List Clause)) : Prop where
  one : ∀ ks ∈ kss, ∃ c, (ofClauses ks).columns = [c]
  columns : D.columns = (ofColumns kss).columns
  keys : D.keys = (ofColumns kss).keys ++ css.flatten.filterMap (ofColumns kss).tableKey?

theorem OfItems.of_itemized {ls : List Lexeme} {columns constraints : List (List Clause)} {options : List Clause}
    (h : Clause.Itemized ls columns constraints options) :
    OfItems (ofClauses (columns.flatten ++ (constraints.flatten ++ options))) columns constraints := by
  obtain ⟨_, _, items, items', _, -, -, -, hcolumns, hconstraints⟩ := h.listed
  have hone : ∀ ks ∈ columns, ∃ c, (ofClauses ks).columns = [c] :=
    ((List.forall₂_and_left _ _).mp (hcolumns.flip.imp fun _ _ h => ⟨exists_column h, h⟩)).1
  have hall : ∀ ks ∈ constraints, ∀ k ∈ ks, k.IsOnTable :=
    ((List.forall₂_and_left _ _).mp (hconstraints.flip.imp fun _ _ h => ⟨h.clauses, h⟩)).1
  have honTable : ∀ k ∈ constraints.flatten, k.IsOnTable := by
    intro k hk
    obtain ⟨ks, hks, hmem⟩ := List.mem_flatten.mp hk
    exact hall ks hks k hmem
  have hdeclared : ofClauses (columns.flatten ++ (constraints.flatten ++ options)) =
      options.foldl extend (constraints.flatten.foldl extend (ofColumns columns)) := by
    rw [← ofClauses_flatten hcolumns, ofClauses, List.foldl_append, List.foldl_append]
    rfl
  obtain ⟨hsame, hkeys⟩ := foldl_options (D := constraints.flatten.foldl extend (ofColumns columns)) h.options
  rw [foldl_constraints honTable] at hsame hkeys hdeclared
  rw [hdeclared]
  exact ⟨hone, hsame, hkeys⟩

/-- What a statement declares is what the items of its definition declare, each read alone. -/
theorem ofSql?_items {sql : List UInt8} {D : TableDeclaration} (hpermitted : Permitted .start (Source.ofText sql).lexemes)
    (hD : ofSql? sql = some D) :
    ∃ head c kss css options D₀, Reader.statement.run (.start (Source.ofText sql).lexemes) = .ok (.table head, c) ∧
      Clause.Itemized c.ahead kss css options ∧ D.Alike [] D₀ ∧ D₀.OfItems kss css := by
  unfold ofSql? at hD
  split at hD
  · next head c hstatement =>
    split at hD
    · next ks c₁ hdefinition =>
      cases hD
      obtain ⟨_, c', _, -, hc, rfl, -⟩ :=
        Reader.Agrees.statement _ _ _ c (Cursor.Alike.start rfl hpermitted.respells) hstatement
      obtain ⟨kss, css, options, hitems, halike⟩ :=
        Clause.definition_itemized hdefinition (hc.ahead.permitted rfl) hc.length_le
      exact ⟨head, c, kss, css, options, _, hstatement, hitems, ofClauses_alike halike, .of_itemized hitems⟩
    · cases hD
  · cases hD

end TableDeclaration

end FirstRow.Sql
