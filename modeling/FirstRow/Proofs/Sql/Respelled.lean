import FirstRow.Proofs.Sql.Applied
import FirstRow.Proofs.Sql.Clauses
import FirstRow.Proofs.Sql.Definition

/-!
# Definitions of two texts

The definition of a table is read of a respelling as it is read of the text. Heads agree, and so do the clauses one
after the other (`Clause.step_agrees`) and what is made of them (`Draft.apply_congr`). Names in keys and checks are
looked up when all columns were read, so that the table has the names then that the licence lets be quoted: no clause
that comes late adds a column.
-/
namespace FirstRow.Sql

open Text.Octet (fold)

variable {κ : Licence} {s : Spot}

/-! ## Heads -/

/-- Two heads give the same name to a table. -/
structure Head.Alike (h h' : Head) : Prop where
  ifAbsent : h.ifAbsent = h'.ifAbsent
  first : h.first.name? = h'.first.name?
  second : h.second.map Lexeme.name? = h'.second.map Lexeme.name?

namespace Head.Alike

variable {h h' : Head}

theorem qualified (hh : h.Alike h') : h.qualified = h'.qualified := by
  have hsome := congrArg Option.isSome hh.second
  rwa [Option.isSome_map, Option.isSome_map] at hsome

theorem name (hh : h.Alike h') : h.name = h'.name := by
  have hlexeme (h : Head) : h.lexeme.name? = (h.second.map Lexeme.name?).getD h.first.name? := by
    unfold Head.lexeme
    cases h.second <;> rfl
  rw [Head.name, hlexeme, hh.first, hh.second, ← hlexeme, ← Head.name]

end Head.Alike

namespace Reader.Agrees

/-- The spot behind what stands in front of the name of a table. -/
private abbrev named : Spot := ⟨0, .expressions, .table⟩

theorem tableName : Agrees κ named Reader.nameLexeme Reader.nameLexeme
    (At .start fun l l' => l.name? = l'.name?) := by
  refine takeThat (fun l l' next hpair _ hl => ⟨hpair.name?_isSome ▸ hl, ?_, hpair.name?_eq rfl⟩) fun _ h => by cases h
  rw [Spot.behind_of_name? hl (.inl (by decide))]
  rfl

theorem head : Agrees κ named Reader.head Reader.head (At .start Head.Alike) := by
  have habsent : Agrees κ named (Reader.clause ["if", "not", "exists"] (return ()))
      (Reader.clause ["if", "not", "exists"] (return ())) (At named fun x x' => x.isSome = x'.isSome) := by
    refine optional (Q := At named fun _ _ => True) (seesOneOf _ rfl) ?_ (fun _ _ _ h => ⟨h.1, rfl⟩) ⟨rfl, rfl⟩
    refine next (t := named) (A := fun _ _ => True) ?_ fun _ _ _ => pure ⟨rfl, trivial⟩
    exact (word "if" rfl).next fun _ _ _ => (word "not" rfl).next fun _ _ _ => (word "exists" rfl).next fun _ _ _ =>
      pure ⟨rfl, trivial⟩
  have hstays : Stays κ .start "." := fun _ h => by cases h
  refine habsent.next fun x x' hx => tableName.next fun l l' hl => ?_
  have hsecond : Agrees κ .start
      (Reader.optional (·.isSymbol ".") do Reader.symbol "."; Reader.nameLexeme)
      (Reader.optional (·.isSymbol ".") do Reader.symbol "."; Reader.nameLexeme)
      (At .start fun y y' => y.map Lexeme.name? = y'.map Lexeme.name?) := by
    refine optional (Q := At .start fun l l' => l.name? = l'.name?) (seesSymbol "." hstays) ?_ ?_ ⟨rfl, rfl⟩
    · exact (symbol "." hstays).next fun _ _ _ => tableName
    · exact fun _ _ _ h => ⟨h.1, congrArg some h.2⟩
  exact hsecond.next fun y y' hy => pure ⟨rfl, hx, hl, hy⟩

theorem seesOutside {w : String} (hw : w ∈ Spot.outsideWords) :
    Agrees κ .start (Reader.seesWord w) (Reader.seesWord w) (At .start fun a b => a = false ∧ b = false) := by
  refine unseen (fun l l' next hpair hpermits => ?_) fun _ h => by cases h
  have hnone := Spot.isWord_outside rfl hpermits hw
  exact ⟨hnone, (hpair.toSame rfl rfl).isWord w ▸ hnone⟩

/-- Two readers, of which the first one is chosen by a word that cannot stand in front of the items. -/
theorem passWord {α : Type} {w : String} (hw : w ∈ Spot.outsideWords) {r r' q q' : Reader α} {Q : Spot → α → α → Prop}
    (hq : Agrees κ .start q q' Q) :
    Agrees κ .start (do if ← Reader.takesWord w then r else q) (do if ← Reader.takesWord w then r' else q') Q := by
  refine (pass (seesOutside hw) (pure (Q := At .start fun a b => a = false ∧ b = false) ⟨rfl, rfl, rfl⟩)).next ?_
  rintro _ _ ⟨rfl, rfl⟩
  exact hq

theorem temporary :
    Agrees κ .start
      (Functor.discard (Reader.optional (·.isOneOf ["temp", "temporary"]) (Reader.oneOf ["temp", "temporary"])))
      (Functor.discard (Reader.optional (·.isOneOf ["temp", "temporary"]) (Reader.oneOf ["temp", "temporary"])))
      (At .start fun _ _ => True) := by
  have hunseen : Agrees κ .start (Reader.seesOneOf ["temp", "temporary"]) (Reader.seesOneOf ["temp", "temporary"])
      (At .start fun a b => a = false ∧ b = false) := by
    refine unseen (fun l l' next hpair hpermits => ?_) fun _ h => by cases h
    have htemp := Spot.isWord_outside rfl hpermits (show "temp" ∈ Spot.outsideWords by decide)
    have htemporary := Spot.isWord_outside rfl hpermits (show "temporary" ∈ Spot.outsideWords by decide)
    have hnone : l.isOneOf ["temp", "temporary"] = false := by simp [Lexeme.isOneOf_eq_any, htemp, htemporary]
    exact ⟨hnone, (hpair.toSame rfl rfl).isOneOf _ ▸ hnone⟩
  refine discard (Q := At .start fun _ _ => True) (pass hunseen ?_) fun _ _ _ h => ⟨h.1, trivial⟩
  exact bind (vacant (P := fun t _ _ => t = .start) rfl) fun _ _ _ ht => ht ▸ pure ⟨rfl, trivial⟩

/-- Two statements define tables of the same name. -/
def Tables (x x' : Statement) : Prop := ∃ h h', x = .table h ∧ x' = .table h' ∧ h.Alike h'

theorem statement : Agrees κ .start Reader.statement Reader.statement (At .start Tables) := by
  refine (word "create" rfl).next fun _ _ _ => phrase ?_
  refine passWord (by decide) <| pass (seesOutside (by decide)) <| passWord (by decide) ?_
  refine temporary.next fun _ _ _ => takesElse (takesWord "table" rfl) ?_ ?_
  · exact head.next fun h h' hh => pure ⟨rfl, h, h', rfl, rfl, hh⟩
  · refine passWord (by decide) ?_
    exact (outsideWord rfl (by decide)).bind fun _ _ _ h => h.elim

end Reader.Agrees

/-! ## Clauses behind the columns -/

namespace Clause

/-- All columns were read. -/
def Expecting.IsLate : Expecting → Prop
  | .body | .column _ | .columnEnd _ | .columnOrConstraint => False
  | _ => True

/-- What comes behind the columns is no column. -/
structure ComesLate (x : Option Clause × Expecting) : Prop where
  isLate : x.2.IsLate
  clause : ∀ k, x.1 = some k → ∀ name type, k ≠ .column name type

open Reader

/-- Behind all columns no step reads another one. -/
theorem step_late (inner : Nested) {expecting : Expecting} (h : expecting.IsLate) :
    Returns ComesLate (step inner expecting) := by
  have hskip {next : Expecting} (hnext : next.IsLate) : Returns ComesLate (pure (none, next)) := .pure ⟨hnext, nofun⟩
  have hread {P : Clause → Prop} {r : Reader Clause} {next : Expecting} (hr : Returns P r)
      (hP : ∀ name type, ¬P (.column name type)) (hnext : next.IsLate) :
      Returns ComesLate (do return (some (← r), next)) := by
    refine hr.behind fun k hk => .pure ⟨hnext, fun _ hsome name type hcolumn => hP name type ?_⟩
    cases hsome
    exact hcolumn ▸ hk
  cases expecting with
  | body => exact h.elim
  | column behind => exact h.elim
  | columnEnd behind => exact h.elim
  | columnOrConstraint => exact h.elim
  | constraint | nextConstraint => exact hread (tableConstraint_onTable inner) (fun _ _ => id) trivial
  | constraintEnd =>
    exact .bind fun _ => .ite (hskip trivial) <| .bind fun _ => .ite (hskip trivial) (hskip trivial)
  | firstOption =>
    exact .bind fun _ => .ite (hread tableOption_isOption (fun _ _ => id) trivial) (hskip trivial)
  | option => exact hread tableOption_isOption (fun _ _ => id) trivial
  | optionEnd => exact .bind fun _ => .ite (hskip trivial) (.pure ⟨trivial, by simp⟩)
  | ending => exact .bind fun _ => hskip trivial
  | nothing => exact hskip trivial

/-- Names are looked up for no clause that comes before the last column. -/
theorem step_early (inner : Nested) {expecting : Expecting} (h : ¬expecting.IsLate) :
    Returns (fun x => ∀ k, x.1 = some k → ¬k.Looks) (step inner expecting) := by
  have hskip {next : Expecting} :
      Returns (fun x : Option Clause × Expecting => ∀ k, x.1 = some k → ¬k.Looks) (pure (none, next)) :=
    .pure nofun
  have hpure {k : Clause} {next : Expecting} (hk : ¬k.Looks) :
      Returns (fun x : Option Clause × Expecting => ∀ k, x.1 = some k → ¬k.Looks) (pure (some k, next)) :=
    .pure fun _ hsome => Option.some.inj hsome ▸ hk
  cases expecting with
  | body => exact .bind fun _ => .ite hskip (.bind fun _ => .bind fun _ => hpure id)
  | column behind => exact .bind fun _ => .bind fun _ => hpure id
  | columnEnd behind =>
    refine .bind fun _ => .ite ((columnConstraint_onColumn inner).behind fun k hk => hpure ?_) ?_
    · cases k <;> first | exact hk.elim | exact id
    · exact .bind fun _ => .ite hskip (.bind fun _ => hskip)
  | columnOrConstraint => exact .bind fun _ => .ite hskip hskip
  | _ => exact absurd trivial h

end Clause

namespace Draft

open Reader

/-- The names of the columns of a draft, if there is one. -/
abbrev columnNames? (d? : Option Draft) : Option (List (List UInt8)) := d?.map fun d => d.table.columnNames

theorem columnNames_applied (d? : Option Draft) {k : Clause} (hk : ∀ name type, k ≠ .column name type) :
    Returns (fun r => columnNames? r = columnNames? d?) (applied d? k) := by
  refine .bind fun c => ?_
  cases d? with
  | none => exact .bind fun _ => .pure rfl
  | some d =>
    have hnames := congrArg some (columnNames_apply d c.fault hk)
    exact .ite (.bind fun _ => .bind fun _ => .pure hnames) (.bind fun _ => .pure hnames)

/-- Behind all columns their names stay what they are. -/
theorem columnNames_readFrom (inner : Nested) (fuel : Nat) {expecting : Clause.Expecting} (h : expecting.IsLate)
    (d? : Option Draft) : Returns (fun r => columnNames? r = columnNames? d?) (readFrom inner fuel expecting d?) := by
  induction fuel generalizing expecting d? with
  | zero => exact fun _ _ _ hrun => by cases hrun
  | succ fuel ih =>
    by_cases hnothing : expecting = .nothing
    · subst hnothing
      exact .pure rfl
    · rw [readFrom.eq_3 _ _ _ _ hnothing]
      refine (Clause.step_late inner h).behind fun step hlate => .bind fun _ => ?_
      obtain ⟨clause?, next⟩ := step
      cases clause? with
      | none => exact ih hlate.isLate d?
      | some k =>
        refine (columnNames_applied d? (hlate.clause k rfl)).behind fun e? he => ?_
        exact (ih hlate.isLate e?).mono fun r hr => hr.trans he

/-! ## Two runs -/

/-- Two drafts, if there are any, are of one outline. -/
abbrev SameOutline (names : List (List UInt8)) (d? d?' : Option Draft) : Prop :=
  d?.map (outline names) = d?'.map (outline names)

theorem idleFault_congr {names : List (List UInt8)} {k k' : Clause} (hk : k.Alike names k') :
    (idleFault k).isSome = (idleFault k').isSome := by
  cases hk with
  | tableUnique _ hts => simp only [idleFault, nullsFault?_congr hts]
  | unknownOption => rfl
  | _ => rfl

/-- A clause makes drafts of one outline of drafts of one outline. -/
theorem applied_agrees {d? d?' : Option Draft} (hd : SameOutline κ.names d? d?') {k k' : Clause}
    (hk : k.Alike κ.names k') (hnames : k.Looks → ∀ d, d? = some d → d.table.HasNames κ.names) :
    Agrees κ s (applied d? k) (applied d?' k') (At s (SameOutline κ.names)) := by
  refine .get fun c c' hc => ?_
  cases d? with
  | none =>
    cases d?' with
    | some d' => cases hd
    | none =>
      refine .next (t := s) (A := fun _ _ => True) (.raiseIf (idleFault_congr hk) ⟨rfl, trivial⟩) fun _ _ _ => ?_
      exact .pure ⟨rfl, rfl⟩
  | some d =>
    cases d?' with
    | none => cases hd
    | some d' =>
      have hstep := apply_congr (Option.some.inj hd) hc.fault hk fun hlooks => hnames hlooks d rfl
      have hclashes : (d.apply c.fault k).1.clashes = (d'.apply c'.fault k').1.clashes :=
        congr_outline (f := clashes) (fun _ => rfl) hstep.draft
      simp only [hclashes]
      split
      · exact .bind (Q := fun _ _ _ => False) .stop fun _ _ _ h => h.elim
      · refine .next (t := s) (A := fun _ _ => True) (.raiseIf hstep.fault ⟨rfl, trivial⟩) fun _ _ _ => ?_
        exact .pure ⟨rfl, congrArg some hstep.draft⟩

/-- A definition is read of a respelling as it is of the text, if the table has the names then that were quoted. -/
theorem readFrom_agrees (hκ : κ.ends = false) {fuel : Nat} {expecting : Clause.Expecting} (hs : expecting.Fits s)
    {d? d?' r : Option Draft} (hd : SameOutline κ.names d? d?') {c c' c₁ : Cursor} (hc : Cursor.Alike κ s c c')
    (hrun : (readFrom nested fuel expecting d?).run c = .ok (r, c₁))
    (hnames : ∀ d, r = some d → d.table.HasNames κ.names) :
    ∃ r' c₁', (readFrom nested fuel expecting d?').run c' = .ok (r', c₁') ∧ SameOutline κ.names r r' := by
  induction fuel generalizing expecting s d? d?' c c' with
  | zero => cases hrun
  | succ fuel ih =>
    by_cases hnothing : expecting = .nothing
    · subst hnothing
      obtain ⟨rfl, -⟩ := pure_ok hrun
      exact ⟨d?', c', rfl, hd⟩
    · rw [readFrom.eq_3 _ _ _ _ hnothing] at hrun ⊢
      obtain ⟨⟨clause?, next⟩, c₂, hstep, hrun⟩ := bind_ok hrun
      obtain ⟨⟨clause?', next'⟩, c₂', s₂, hstep', hc₂, hclause, rfl, hfits⟩ :=
        Clause.step_agrees hκ hs c c' _ c₂ hc hstep
      rw [StateT.run_bind, hstep']
      obtain ⟨_, c₃, hheight, hrun⟩ := bind_ok hrun
      cases hheight
      have hc₃ : Cursor.Alike κ s₂ { c₂ with height := next.height } { c₂' with height := next.height } :=
        { hc₂ with height := rfl }
      cases hclause with
      | none => exact ih hfits hd hc₃ hrun
      | @some k k' hk =>
        obtain ⟨e?, c₄, happlied, hrest⟩ := bind_ok hrun
        -- names are looked up only behind the last column, where the final draft has no other names
        have hlooked : k.Looks → ∀ d, d? = some d → d.table.HasNames κ.names := by
          rintro hlooks d rfl
          have hlate : expecting.IsLate := by
            by_contra hearly
            exact Clause.step_early nested hearly _ _ _ hstep k rfl hlooks
          have hcomes := Clause.step_late nested hlate _ _ _ hstep
          have he := columnNames_applied _ (hcomes.clause k rfl) _ _ _ happlied
          have hr := (columnNames_readFrom nested fuel hcomes.isLate e? _ _ _ hrest).trans he
          obtain ⟨e, rfl, hsame⟩ := Option.map_eq_some_iff.mp hr
          exact (hnames e rfl).congr hsame
        obtain ⟨e?', c₄', _, happlied', hc₄, rfl, he⟩ := applied_agrees hd hk hlooked _ _ _ _ hc₃ happlied
        obtain ⟨r', c₁', hrun', hr⟩ := ih hfits he hc₄ hrest
        refine ⟨r', c₁', ?_, hr⟩
        change StateT.run (applied d?' k' >>= readFrom nested fuel next) { c₂' with height := next.height } = _
        rw [StateT.run_bind, happlied']
        exact hrun'

theorem read_agrees (hκ : κ.ends = false) {d? r : Option Draft} {c c' c₁ : Cursor} (hc : Cursor.Alike κ .start c c')
    (hrun : (read d?).run c = .ok (r, c₁)) (hnames : ∀ d, r = some d → d.table.HasNames κ.names) :
    ∃ r' c₁', (read d?).run c' = .ok (r', c₁') ∧ SameOutline κ.names r r' := by
  obtain ⟨_, c₂, hheight, hrun⟩ := bind_ok hrun
  cases hheight
  obtain ⟨_, c₃, hget, hrun⟩ := bind_ok hrun
  cases hget
  have hc₂ : Cursor.Alike κ .start { c with height := Clause.Expecting.body.height }
      { c' with height := Clause.Expecting.body.height } := { hc with height := rfl }
  have hread := readFrom_agrees hκ (show Clause.Expecting.body.Fits .start from rfl) rfl hc₂ hrun hnames
  simp only [hc.size] at hread
  exact hread

end Draft

/-- Lexemes and a respelling of them are read from the same spot on. -/
theorem Cursor.Alike.start (hκ : κ.ends = false) {ls ls' : List Lexeme} (h : Respells κ .start ls ls') :
    Cursor.Alike κ .start (.start ls) (.start ls') := by
  have hlength : ls.length = ls'.length := by
    generalize Spot.start = s at h
    induction h with
    | nil => rfl
    | cut hrest => simp [Licence.ends_of_rest hrest] at hκ
    | cons _ _ _ _ _ ih => rw [List.length_cons, List.length_cons, ih]
  exact ⟨h, hlength, rfl, rfl, rfl, Nat.le_refl _, Nat.le_refl _⟩

end FirstRow.Sql
