import FirstRow.Proofs.Sql.Reading
import FirstRow.Sql.Draft

/-!
# Definitions that were read

Reading the definition of a table is two things: reading its clauses, which `Clause.readAll` does whatever they mean, and
applying them one after the other to a draft. A definition that is read to its end has no fault anywhere, so that no
clause had to be applied behind one. `Draft.Follows` says of the draft what the clauses made of it, and `Draft.Built` what
the last step made of that.
-/
namespace FirstRow.Sql

open Reader

namespace Clause

/-- The clauses of a definition up to its end. -/
def readAll (inner : Nested) : Nat → Expecting → Reader (List Clause)
  | 0, _ => Reader.stop .grammar
  | fuel + 1, expecting => do
    let (clause?, next) ← step inner expecting
    modify ({ · with height := next.height })
    match clause? with
    | none => readAll inner fuel next
    | some k =>
      if next = Expecting.ending then
        let _ ← step inner next
        return []
      else return k :: (← readAll inner fuel next)

/-- The clauses of a definition behind its head, with the end of the statement. -/
def definition : Reader (List Clause) := do
  modify ({ · with height := Expecting.body.height })
  readAll nested (4 * (← get).size + 8) .body

/-- Behind a step the rest of the clauses is read. -/
theorem run_readAll {inner : Nested} {fuel : Nat} {expecting next : Expecting} {clause? : Option Clause}
    {c c' : Cursor} (h : (step inner expecting).run c = .ok ((clause?, next), c')) :
    (readAll inner (fuel + 1) expecting).run c =
      (match clause? with
        | none => readAll inner fuel next
        | some k =>
          if next = Expecting.ending then do
            let _ ← step inner next
            return []
          else return k :: (← readAll inner fuel next)).run { c' with height := next.height } := by
  rw [readAll, StateT.run_bind, h]
  rfl

/-! ## Steps behind a fault -/

theorem deferral_strict : Strict deferral :=
  .behind ((Idle.takes _).bind fun _ => .pure _) fun _ => (Strict.word "deferrable").bind _

theorem columnConstraint_strict (inner : Nested) : Strict (columnConstraint inner) := by
  refine .takesElse <| .takesElse <| .takesElse <| .behind (.sees _) fun _ => .ite (deferral_strict.bind _) ?_
  refine .behind (.sees _) fun _ => .ite (.behind .get fun c => ?_) ?_
  · have hrequired : Strict columnConstraint.required := ((Strict.word "not").bind _).bind _
    split
    · exact .ite (deferral_strict.bind _) hrequired
    · exact hrequired
  · refine .takesElse <| .takesElse <| .takesElse <| .takesElse <| .takesElse <| .takesElse ?_
    exact (Strict.word "as").bind _

theorem tableConstraint_strict (inner : Nested) : Strict (tableConstraint inner) :=
  .takesElse <| .takesElse <| .takesElse <| .takesElse <| ((Strict.word "foreign").bind _).bind _

theorem tableOption_strict : Strict tableOption :=
  .takesElse <| Strict.nameLexeme.bind _

/-- Behind a fault a step does nothing, or it does not come to an end. -/
theorem step_idle (inner : Nested) (expecting : Expecting) : Idle (step inner expecting) := by
  cases expecting with
  | body => exact (Strict.takesElse ((Strict.word "as").bind _)).idle
  | column behind => exact ((Strict.take _).bind _).idle
  | columnEnd behind =>
    refine (Strict.behind (.sees _) fun _ => .ite ((columnConstraint_strict inner).bind _) ?_).idle
    exact .takesElse ((Strict.symbol ")").bind _)
  | columnOrConstraint => exact (Idle.sees _).bind fun _ => .ite (.pure _) (.pure _)
  | constraint | nextConstraint => exact ((tableConstraint_strict inner).bind _).idle
  | constraintEnd =>
    exact (Idle.takes _).bind fun _ => .ite (.pure _) <| (Idle.takes _).bind fun _ => .ite (.pure _) (.pure _)
  | firstOption => exact (Idle.sees _).bind fun _ => .ite (tableOption_strict.bind _).idle (.pure _)
  | option => exact (tableOption_strict.bind _).idle
  | optionEnd => exact (Idle.takes _).bind fun _ => .ite (.pure _) (.pure _)
  | ending => exact ((Strict.symbol ";").bind _).idle
  | nothing => exact .pure _

/-! ## The last step -/

/-- A clause constrains one column. -/
def IsOnColumn : Clause → Prop
  | .inert | .notNull | .default _ | .primaryKey .. | .unique _ | .check _ | .collate _ | .generated .. | .references .. =>
    True
  | _ => False

/-- A clause constrains the table. -/
def IsOnTable : Clause → Prop
  | .inert | .tablePrimaryKey .. | .tableUnique .. | .check _ | .foreignKey .. => True
  | _ => False

/-- A clause is an option of the table. -/
def IsOption : Clause → Prop
  | .withoutRowid | .strict | .unknownOption _ => True
  | _ => False

theorem generatedRest_onColumn (inner : Nested) : Returns IsOnColumn (generatedRest inner) :=
  .phrase <| .bind fun _ => .bind fun _ => .ite (.bind fun _ => .pure trivial) (.pure trivial)

theorem columnConstraint_onColumn (inner : Nested) : Returns IsOnColumn (columnConstraint inner) := by
  have hrequired : Returns IsOnColumn columnConstraint.required := .bind fun _ => .bind fun _ => .pure trivial
  refine .bind fun _ => .ite (.bind fun _ => .pure trivial) ?_
  refine .bind fun _ => .ite (.bind fun _ => .pure trivial) ?_
  refine .bind fun _ => .ite (.bind fun _ => .pure trivial) ?_
  refine .bind fun _ => .ite (.bind fun _ => .pure trivial) ?_
  refine .bind fun _ => .ite (.bind fun _ => ?_) ?_
  · split
    · exact .ite (.bind fun _ => .pure trivial) hrequired
    · exact hrequired
  refine .bind fun _ => .ite (.bind fun _ => .bind fun _ => .bind fun _ => .bind fun _ => .pure trivial) ?_
  refine .bind fun _ => .ite (.bind fun _ => .pure trivial) ?_
  refine .bind fun _ => .ite (.bind fun _ => .pure trivial) ?_
  refine .bind fun _ => .ite (.bind fun _ => .bind fun _ => .pure trivial) ?_
  refine .bind fun _ => .ite (.bind fun _ => .pure trivial) ?_
  exact .bind fun _ =>
    .ite (.bind fun _ => generatedRest_onColumn inner) (.bind fun _ => generatedRest_onColumn inner)

theorem tableConstraint_onTable (inner : Nested) : Returns IsOnTable (tableConstraint inner) := by
  refine .bind fun _ => .ite (.bind fun _ => .pure trivial) ?_
  refine .bind fun _ => .ite (.bind fun _ => .bind fun _ => .bind fun _ => .pure trivial) ?_
  refine .bind fun _ => .ite (.bind fun _ => .bind fun _ => .pure trivial) ?_
  refine .bind fun _ => .ite (.bind fun _ => .bind fun _ => .pure trivial) ?_
  exact .bind fun _ => .bind fun _ => .bind fun _ => .bind fun _ => .bind fun _ => .bind fun _ => .pure trivial

theorem tableOption_isOption : Returns IsOption tableOption := by
  refine .bind fun _ => .ite (.bind fun _ => .pure ?_) (.bind fun _ => .pure ?_) <;> split <;> trivial

/-- The end of a definition comes behind its last step, and only there. -/
structure EndsLast (next : Option Clause × Expecting) : Prop where
  not_nothing : next.2 ≠ .nothing
  ending : next.2 = .ending → next.1 = some .finish ∨ next.1 = some .finishQuery
  finish : next.1 = some .finish → next.2 = .ending

/-- A step that stays in front of the end. -/
theorem returns_within {clause? : Option Clause} {next : Expecting} (hclause : clause? ≠ some .finish)
    (hnext : next ≠ .ending ∧ next ≠ .nothing) : Returns EndsLast (pure (clause?, next)) :=
  .pure ⟨hnext.2, fun h => absurd h hnext.1, fun h => absurd h hclause⟩

/-- A step with a clause that its reader gives, which is not the last one. -/
theorem returns_clause {P : Clause → Prop} {r : Reader Clause} {next : Expecting} (hr : Returns P r)
    (hP : ¬P .finish) (hnext : next ≠ .ending ∧ next ≠ .nothing) : Returns EndsLast (do return (some (← r), next)) :=
  hr.behind fun _ hk => returns_within (fun hfinish => hP (Option.some.inj hfinish ▸ hk)) hnext

theorem step_endsLast (inner : Nested) {expecting : Expecting} (hending : expecting ≠ .ending)
    (hnothing : expecting ≠ .nothing) : Returns EndsLast (step inner expecting) := by
  have hskip {next : Expecting} (hnext : next ≠ .ending ∧ next ≠ .nothing) :
      Returns EndsLast (pure (none, next)) := returns_within (by simp) hnext
  cases expecting with
  | body =>
    refine .bind fun _ => .ite (hskip (by simp)) ?_
    exact .bind fun _ => .bind fun _ => .pure ⟨by simp, fun _ => .inr rfl, by simp⟩
  | column behind => exact .bind fun _ => .bind fun _ => returns_within (by simp) (by simp)
  | columnEnd behind =>
    refine .bind fun _ => .ite (returns_clause (columnConstraint_onColumn inner) id (by simp)) ?_
    exact .bind fun _ => .ite (hskip (by simp)) (.bind fun _ => hskip (by simp))
  | columnOrConstraint => exact .bind fun _ => .ite (hskip (by simp)) (hskip (by simp))
  | constraint | nextConstraint => exact returns_clause (tableConstraint_onTable inner) id (by simp)
  | constraintEnd =>
    exact .bind fun _ => .ite (hskip (by simp)) <| .bind fun _ => .ite (hskip (by simp)) (hskip (by simp))
  | firstOption => exact .bind fun _ => .ite (returns_clause tableOption_isOption id (by simp)) (hskip (by simp))
  | option => exact returns_clause tableOption_isOption id (by simp)
  | optionEnd => exact .bind fun _ => .ite (hskip (by simp)) (.pure ⟨by simp, fun _ => .inl rfl, fun _ => rfl⟩)
  | ending => exact absurd rfl hending
  | nothing => exact absurd rfl hnothing

/-! ## The first clause -/

/-- A definition begins with a column, unless it takes its columns from a query. -/
theorem definition_begins {c c' : Cursor} {ks : List Clause} (h : definition.run c = .ok (ks, c')) :
    ∀ k ∈ ks.head?, ∃ name type, k = .column name type := by
  obtain ⟨_, c₁, -, h⟩ := bind_ok h
  obtain ⟨_, c₂, -, h⟩ := bind_ok h
  have hbody : Returns (fun next => next = (none, .column false) ∨ next = (some .finishQuery, .ending))
      (step nested .body) :=
    .bind fun _ => .ite (.pure (.inl rfl)) (.bind fun _ => .bind fun _ => .pure (.inr rfl))
  have hcolumn : Returns (fun next => ∃ name type, next = (some (.column name type), .columnEnd false))
      (step nested (.column false)) :=
    .bind fun n => .bind fun t => .pure ⟨n, t, rfl⟩
  obtain ⟨next, c₃, hstep, -⟩ := bind_ok h
  rcases hbody _ _ _ hstep with rfl | rfl
  · have h := (run_readAll hstep).symm.trans h
    obtain ⟨next, c₄, hstep, -⟩ := bind_ok h
    obtain ⟨name, type, rfl⟩ := hcolumn _ _ _ hstep
    have h := (run_readAll hstep).symm.trans h
    obtain ⟨rest, c₅, -, h⟩ := bind_ok h
    obtain ⟨rfl, -⟩ := pure_ok h
    intro k hk
    cases hk
    exact ⟨name, type, rfl⟩
  · have h := (run_readAll hstep).symm.trans h
    obtain ⟨_, c₄, -, h⟩ := bind_ok h
    obtain ⟨rfl, -⟩ := pure_ok h
    intro k hk
    cases hk

end Clause

namespace Draft

/-! ## What clauses make of a draft -/

/-- Clauses that are in order make a draft of another one, one after the other. -/
inductive Follows : Draft → List Clause → Draft → Prop where
  | nil {d : Draft} : Follows d [] d
  | cons {d d₁ d₂ : Draft} {k : Clause} {ks : List Clause} : k ≠ .finish → d.apply none k = (d₁, none) →
      Follows d₁ ks d₂ → Follows d (k :: ks) d₂

/-- What the clauses of a definition make of a draft with its last step. Where no table is made, there is no draft. -/
inductive Built (ks : List Clause) : Option Draft → Option Draft → Prop where
  | nothing : Built ks none none
  | table {d d₁ d₂ : Draft} : Follows d ks d₁ → d₁.finish none = (d₂, none) → Built ks (some d) (some d₂)

theorem Built.cons {d? e? r : Option Draft} {k : Clause} {ks : List Clause} (hk : k ≠ .finish)
    (happly : d? = none ∧ e? = none ∨ ∃ d e, d? = some d ∧ e? = some e ∧ d.apply none k = (e, none))
    (h : Built ks e? r) : Built (k :: ks) d? r := by
  rcases happly with ⟨rfl, rfl⟩ | ⟨d, e, rfl, rfl, happly⟩
  · cases h
    exact .nothing
  · cases h with
    | table hfollows hfinish => exact .table (.cons hk happly hfollows) hfinish

/-- What every clause keeps, of a draft and of the clauses that made it, holds behind all of them. -/
theorem Follows.induction {P : List Clause → Draft → Prop} {d d' : Draft} {ks : List Clause} (h : Follows d ks d')
    (hd : P [] d)
    (hstep : ∀ before d k d', P before d → k ≠ .finish → d.apply none k = (d', none) → P (before ++ [k]) d') :
    P ks d' := by
  suffices hbehind : ∀ before, P before d → P (before ++ ks) d' from hbehind [] hd
  clear hd
  induction h with
  | nil =>
    intro before hbefore
    rwa [List.append_nil]
  | cons hk happly _ ih =>
    intro before hbefore
    rw [List.append_cons]
    exact ih _ (hstep _ _ _ _ hbefore hk happly)

/-! ## Reading -/

/-- A clause behind which no fault is pending was applied in front of none, and it is in order. -/
theorem applied_ok {d? r : Option Draft} {k : Clause} {c c' : Cursor} (h : (applied d? k).run c = .ok (r, c'))
    (hfault : c'.fault = none) :
    c' = c ∧ (d? = none ∧ r = none ∨ ∃ d e, d? = some d ∧ r = some e ∧ d.apply none k = (e, none)) := by
  have hraise {f : Option String} {c₁ c₂ : Cursor} {u : Unit} (hrun : (raiseIf f).run c₁ = .ok (u, c₂))
      (hnone : c₂.fault = none) : f = none ∧ c₂ = c₁ := by
    cases f with
    | none =>
      cases hrun
      exact ⟨rfl, rfl⟩
    | some m =>
      cases hrun
      cases hnone
  obtain ⟨_, c₁, hget, h⟩ := bind_ok h
  cases hget
  cases d? with
  | none =>
    obtain ⟨_, c₂, hidle, h⟩ := bind_ok h
    obtain ⟨rfl, rfl⟩ := pure_ok h
    exact ⟨(hraise hidle hfault).2, .inl ⟨rfl, rfl⟩⟩
  | some d =>
    simp only at h
    split at h
    · obtain ⟨_, _, hstop, -⟩ := bind_ok h
      cases hstop
    · obtain ⟨_, c₂, happly, h⟩ := bind_ok h
      obtain ⟨rfl, rfl⟩ := pure_ok h
      obtain ⟨hnone, rfl⟩ := hraise happly hfault
      rw [hfault] at hnone ⊢
      exact ⟨rfl, .inr ⟨d, _, rfl, rfl, Prod.ext rfl hnone⟩⟩

/-- The end of a statement is not read behind a fault. -/
theorem readFrom_ending {inner : Nested} {fuel : Nat} {d? r : Option Draft} {c c' : Cursor}
    (h : (readFrom inner fuel .ending d?).run c = .ok (r, c')) :
    c.fault = none ∧ r = d? ∧ ∃ next c'', (Clause.step inner .ending).run c = .ok (next, c'') := by
  cases fuel with
  | zero => cases h
  | succ fuel =>
    rw [readFrom.eq_3 _ _ _ _ (by simp)] at h
    obtain ⟨next, c₁, hstep, h⟩ := bind_ok h
    have hfault := ((Strict.symbol ";").bind _) _ _ _ hstep
    refine ⟨hfault, ?_, next, c₁, hstep⟩
    obtain ⟨_, c₂, hsymbol, hpure⟩ := bind_ok hstep
    obtain ⟨rfl, rfl⟩ := pure_ok hpure
    obtain ⟨_, c₃, -, h⟩ := bind_ok h
    cases fuel with
    | zero => cases h
    | succ fuel => exact (pure_ok h).1.symm

/-- What comes to the end of a definition is read clause by clause and built of the clauses. -/
theorem readFrom_ok {inner : Nested} {fuel : Nat} {expecting : Clause.Expecting} {d? r : Option Draft} {c c' : Cursor}
    (hending : expecting ≠ .ending) (hnothing : expecting ≠ .nothing)
    (h : (readFrom inner fuel expecting d?).run c = .ok (r, c')) :
    c.fault = none ∧ ∃ ks c'', (Clause.readAll inner fuel expecting).run c = .ok (ks, c'') ∧ Built ks d? r := by
  induction fuel generalizing expecting d? c with
  | zero => cases h
  | succ fuel ih =>
    rw [readFrom.eq_3 _ _ _ _ hnothing] at h
    obtain ⟨⟨clause?, next⟩, c₁, hstep, h⟩ := bind_ok h
    have hlast := Clause.step_endsLast inner hending hnothing _ _ _ hstep
    have hidle := Clause.step_idle inner expecting _ _ _ hstep
    obtain ⟨_, c₂, hheight, h⟩ := bind_ok h
    obtain rfl : { c₁ with height := next.height } = c₂ := by
      cases hheight
      rfl
    -- no fault is pending behind the step, so none was in front of it
    have hnone (hfault : c₁.fault = none) : c.fault = none := by
      rcases hidle with hidle | rfl
      · exact hidle
      · exact hfault
    cases clause? with
    | none =>
      have hnext : next ≠ .ending := fun hnext => by
        rcases hlast.ending hnext with hclause | hclause <;> cases hclause
      obtain ⟨hfault, ks, c₃, hall, hbuilt⟩ := ih hnext hlast.not_nothing h
      exact ⟨hnone hfault, ks, c₃, (Clause.run_readAll hstep).trans hall, hbuilt⟩
    | some k =>
      obtain ⟨e?, c₃, happlied, h⟩ := bind_ok h
      by_cases hnext : next = .ending
      · subst hnext
        obtain ⟨hfault, rfl, next', c₄, hend⟩ := readFrom_ending h
        obtain ⟨rfl, happly⟩ := applied_ok happlied hfault
        refine ⟨hnone hfault, [], c₄, (Clause.run_readAll hstep).trans ?_, ?_⟩
        · simp only [if_pos]
          rw [StateT.run_bind, hend]
          rfl
        · rcases happly with ⟨rfl, rfl⟩ | ⟨d, e, rfl, rfl, happly⟩
          · exact .nothing
          · rcases hlast.ending rfl with hk | hk
            · obtain rfl := Option.some.inj hk
              exact .table .nil happly
            · obtain rfl := Option.some.inj hk
              cases happly
      · obtain ⟨hfault, ks, c₄, hall, hbuilt⟩ := ih hnext hlast.not_nothing h
        obtain ⟨rfl, happly⟩ := applied_ok happlied hfault
        have hk : k ≠ .finish := fun hk => hnext (hlast.finish (congrArg some hk))
        refine ⟨hnone hfault, k :: ks, c₄, (Clause.run_readAll hstep).trans ?_, hbuilt.cons hk happly⟩
        simp only [if_neg hnext]
        rw [StateT.run_bind, hall]
        rfl

/-- A definition that is read to its end has no fault in front of it, and what it makes is built of its clauses. -/
theorem read_ok {d? r : Option Draft} {c c' : Cursor} (h : (read d?).run c = .ok (r, c')) :
    c.fault = none ∧ ∃ ks c'', Clause.definition.run c = .ok (ks, c'') ∧ Built ks d? r := by
  obtain ⟨_, c₁, hheight, h⟩ := bind_ok h
  cases hheight
  obtain ⟨_, c₂, hget, h⟩ := bind_ok h
  cases hget
  obtain ⟨hfault, ks, c₃, hall, hbuilt⟩ := readFrom_ok (by simp) (by simp) h
  exact ⟨hfault, ks, c₃, hall, hbuilt⟩

end Draft
end FirstRow.Sql
