import FirstRow.Proofs.Sql.Items
import FirstRow.Proofs.Sql.Respelled

/-!
# Definitions item by item

The clauses of a definition are read item by item: what is read of an item is what is read of it where nothing stands
behind it. `Clause.Reads` is a run over some clauses, and `Clause.step_item` says what a step within an item can be: the
same step of the item alone, or the comma or the parenthesis that ends the item.
-/
namespace FirstRow.Sql

variable {s : Spot} {tail : List Lexeme} {c c' c₁ c₂ : Cursor}

/-! ## Lexemes that are taken -/

namespace Reader

theorem takeThat_ok {p : Lexeme → Bool} {l : Lexeme} (h : (takeThat p).run c = .ok (l, c₁)) :
    c.ahead = l :: c₁.ahead ∧ p l = true ∧ c₁.size = c.size := by
  obtain ⟨l', hfound, hahead, -, hsize⟩ := take_ok h
  obtain ⟨hp, heq⟩ := Option.ite_none_right_eq_some.mp hfound
  cases heq
  exact ⟨hahead, hp, hsize⟩

theorem discard_takeThat_ok {p : Lexeme → Bool} {u : Unit} (h : (discard (takeThat p)).run c = .ok (u, c₁)) :
    ∃ l, c.ahead = l :: c₁.ahead ∧ p l = true ∧ c₁.size = c.size := by
  have hdiscard : Functor.discard (takeThat p) = takeThat p >>= fun _ => pure () := by
    rw [bind_pure_comp]
    rfl
  rw [hdiscard] at h
  obtain ⟨l, c₂, htake, h⟩ := bind_ok h
  obtain ⟨-, rfl⟩ := pure_ok h
  exact ⟨l, takeThat_ok htake⟩

theorem sees_ok {p : Lexeme → Bool} {b : Bool} (h : (sees p).run c = .ok (b, c₁)) : b = c.ahead.head?.any p ∧ c₁ = c := by
  cases h
  exact ⟨rfl, rfl⟩

theorem takesSymbol_ok {w : String} {b : Bool} (h : (takesSymbol w).run c = .ok (b, c₁)) :
    b = true ∧ (∃ l, c.ahead = l :: c₁.ahead ∧ l.isSymbol w = true ∧ c₁.size = c.size) ∨
      b = false ∧ c₁ = c ∧ c.ahead.head?.any (·.isSymbol w) = false := by
  obtain ⟨seen, c₂, hsees, h⟩ := bind_ok h
  obtain ⟨hseen, rfl⟩ := sees_ok hsees
  cases seen with
  | true =>
    obtain ⟨u, c₃, hsymbol, h⟩ := bind_ok h
    obtain ⟨rfl, rfl⟩ := pure_ok h
    exact .inl ⟨rfl, discard_takeThat_ok hsymbol⟩
  | false =>
    obtain ⟨rfl, rfl⟩ := pure_ok h
    exact .inr ⟨rfl, rfl, hseen.symm⟩

/-- What does not come next is not taken. -/
theorem run_takesSymbol {w : String} (h : c.ahead.head?.any (·.isSymbol w) = false) :
    (takesSymbol w).run c = .ok (false, c) := by
  change StateT.run (if c.ahead.head?.any (·.isSymbol w) then _ else _) c = _
  rw [h]
  rfl

end Reader

/-- In front of what ends an item nothing of the item is left. -/
theorem Cursor.Alike.ended {names : List (List UInt8)} (hc : Cursor.Alike ⟨names, some tail⟩ s c c') (hs : s.depth = 1)
    {l : Lexeme} {ls : List Lexeme} (hahead : c.ahead = l :: ls) (hl : l.endsItem = true) :
    tail = l :: ls ∧ c'.ahead = [] := by
  have hrespells := hc.ahead
  rw [hahead] at hrespells
  generalize c'.ahead = ls' at hrespells
  cases hrespells with
  | cut hrest => exact ⟨Option.some.inj hrest, rfl⟩
  | cons _ _ _ _ hinner => simp [hinner rfl hs] at hl

open Reader

/-- A symbol that does not come next in the text does not in the respelling. -/
theorem Cursor.Alike.unseen_symbol {κ : Licence} (hc : Cursor.Alike κ s c c') {w : String}
    (h : c.ahead.head?.any (·.isSymbol w) = false) : c'.ahead.head?.any (·.isSymbol w) = false := by
  have hrespells := hc.ahead
  generalize c.ahead = ls at hrespells h
  generalize c'.ahead = ls' at hrespells
  cases hrespells with
  | nil => rfl
  | cut => rfl
  | cons _ hpair => exact (hpair.isSymbol w).symm.trans h

namespace Clause

/-! ## Runs -/

/-- Clauses are read one after the other. -/
inductive Reads : Expecting → Cursor → List Clause → Expecting → Cursor → Prop where
  | done {e : Expecting} {c : Cursor} : Reads e c [] e c
  | step {e e₁ e₂ : Expecting} {c c₁ c₂ : Cursor} {k? : Option Clause} {ks : List Clause} :
      (Clause.step nested e).run c = .ok ((k?, e₁), c₁) → Reads e₁ { c₁ with height := e₁.height } ks e₂ c₂ →
      Reads e c (k?.toList ++ ks) e₂ c₂

/-- What is read to the end of a definition ends with the clause that says so. -/
theorem reads_of_readAll {fuel : Nat} {e : Expecting} {ks : List Clause} (hending : e ≠ .ending) (hnothing : e ≠ .nothing)
    (h : (readAll nested fuel e).run c = .ok (ks, c')) :
    ∃ k c₁, Reads e c (ks ++ [k]) .ending c₁ ∧ (k = .finish ∨ k = .finishQuery) := by
  induction fuel generalizing e ks c c' with
  | zero => cases h
  | succ fuel ih =>
    obtain ⟨⟨k?, next⟩, c₁, hstep, -⟩ := bind_ok h
    have hlast := step_endsLast nested hending hnothing _ _ _ hstep
    have h := (run_readAll hstep).symm.trans h
    cases k? with
    | none =>
      have hnext : next ≠ .ending := fun hnext => by rcases hlast.ending hnext with h | h <;> cases h
      obtain ⟨k, c₂, hreads, hk⟩ := ih hnext hlast.not_nothing h
      exact ⟨k, c₂, .step hstep hreads, hk⟩
    | some k =>
      by_cases hnext : next = .ending
      · simp only [if_pos hnext] at h
        obtain ⟨_, _, -, h⟩ := bind_ok h
        obtain ⟨rfl, -⟩ := pure_ok h
        subst hnext
        refine ⟨k, _, .step hstep .done, ?_⟩
        simpa using hlast.ending rfl
      · simp only [if_neg hnext] at h
        obtain ⟨rest, c₂, hrest, h⟩ := bind_ok h
        obtain ⟨rfl, -⟩ := pure_ok h
        obtain ⟨last, c₃, hreads, hk⟩ := ih hnext hlast.not_nothing hrest
        exact ⟨last, c₃, .step hstep hreads, hk⟩

/-! ## Items -/

namespace Expecting

/-- What can be expected within an item, and what is expected where it ends. -/
inductive Within : Expecting → Expecting → Prop where
  | column (behind : Bool) : Within (.column behind) (.columnEnd behind)
  | columnEnd (behind : Bool) : Within (.columnEnd behind) (.columnEnd behind)
  | constraint : Within .constraint .constraintEnd
  | nextConstraint : Within .nextConstraint .constraintEnd
  | constraintEnd : Within .constraintEnd .constraintEnd

/-- What is expected behind the comma that ends an item. -/
def behindComma : Expecting → Expecting
  | .columnEnd _ => .columnOrConstraint
  | _ => .nextConstraint

end Expecting

/-- An item ends with a comma or with the parenthesis that ends the definition. -/
inductive Ends (f : Expecting) (tail ls : List Lexeme) : Expecting → Prop where
  | comma {l : Lexeme} : l.isSymbol "," = true → tail = l :: ls → Ends f tail ls f.behindComma
  | close {l : Lexeme} : l.isSymbol ")" = true → tail = l :: ls → Ends f tail ls .firstOption

/-- A step within an item is one of the item alone. -/
structure StepsAlone (e f e₁ : Expecting) (tail : List Lexeme) (k? : Option Clause) (c' c₁ : Cursor) : Prop where
  within : e₁.Within f
  alone : ∃ k?' c₁' s₁, (Clause.step nested e).run c' = .ok ((k?', e₁), c₁') ∧
    Cursor.Alike ⟨[], some tail⟩ s₁ c₁ c₁' ∧ Option.Rel (Clause.Alike []) k? k?' ∧ e₁.Fits s₁

theorem StepsAlone.of_agrees {e f e₁ : Expecting} {k? : Option Clause} {r : Reader (Option Clause × Expecting)}
    (h : Agrees ⟨[], some tail⟩ s r r (Steps [])) (hwithin : Returns (fun x => x.2.Within f) r)
    (hc : Cursor.Alike ⟨[], some tail⟩ s c c') (hrun : r.run c = .ok ((k?, e₁), c₁))
    (hstep : ∀ x, r.run c' = .ok x → (Clause.step nested e).run c' = .ok x) : StepsAlone e f e₁ tail k? c' c₁ := by
  obtain ⟨⟨k?', _⟩, c₁', s₁, hrun', hc₁, hclause, rfl, hfits⟩ := h c c' _ c₁ hc hrun
  exact ⟨hwithin _ _ _ hrun, k?', c₁', s₁, hstep _ hrun', hc₁, hclause, hfits⟩

/-- The item ends in front of a comma or a closing parenthesis that is taken. -/
theorem Ends.of_taken {f e₁ : Expecting} {w : String} (hc : Cursor.Alike ⟨[], some tail⟩ s c c') (hs : s.depth = 1)
    (htaken : ∃ l, c.ahead = l :: c₁.ahead ∧ l.isSymbol w = true ∧ c₁.size = c.size)
    (hw : w = "," ∧ e₁ = f.behindComma ∨ w = ")" ∧ e₁ = .firstOption) :
    c'.ahead = [] ∧ Ends f tail c₁.ahead e₁ ∧ c₁.ahead.length ≤ c₁.size := by
  obtain ⟨l, hahead, hl, hsize⟩ := htaken
  have hlength : c₁.ahead.length ≤ c₁.size := by
    have hle := hc.length_le
    rw [hahead, List.length_cons] at hle
    omega
  have hends : l.endsItem = true := by rcases hw with ⟨rfl, -⟩ | ⟨rfl, -⟩ <;> simp [Lexeme.endsItem, hl]
  obtain ⟨htail, hnothing⟩ := hc.ended hs hahead hends
  rcases hw with ⟨rfl, rfl⟩ | ⟨rfl, rfl⟩
  · exact ⟨hnothing, .comma hl htail, hlength⟩
  · exact ⟨hnothing, .close hl htail, hlength⟩

open Reader.Agrees in
/-- What a step within an item can be. -/
theorem step_item {e f e₁ : Expecting} {k? : Option Clause} (he : e.Within f) (hs : e.Fits s)
    (hc : Cursor.Alike ⟨[], some tail⟩ s c c') (hrun : (Clause.step nested e).run c = .ok ((k?, e₁), c₁)) :
    StepsAlone e f e₁ tail k? c' c₁ ∨
      k? = none ∧ e = f ∧ c'.ahead = [] ∧ Ends f tail c₁.ahead e₁ ∧ c₁.ahead.length ≤ c₁.size := by
  have hreturns {r : Reader Clause} {next : Expecting} (h : next.Within f) :
      Returns (fun x => x.2.Within f) (do return (some (← r), next)) := .bind fun _ => .pure h
  have hconstraint (hs : s.BeginsItem) :
      Agrees ⟨[], some tail⟩ s (do return (some (← Reader.tableConstraint nested), .constraintEnd))
        (do return (some (← Reader.tableConstraint nested), .constraintEnd)) (Steps []) :=
    clause (tableConstraint hs) fun _ h => h
  cases he with
  | column behind =>
    obtain rfl : s = .item := hs
    refine .inl (.of_agrees (columnStep behind) ?_ hc hrun fun _ h => h)
    exact .bind fun _ => .bind fun _ => .pure (.columnEnd behind)
  | columnEnd behind =>
    have hs : s.EndsColumn := hs
    obtain ⟨seen, c₂, hsees, hrest⟩ := bind_ok hrun
    obtain ⟨_, c₂', s₁, hsees', hc₂, rfl, rfl⟩ :=
      seesOneOf _ (List.all_eq_true.mpr fun w _ => hs.keeps w) c c' seen c₂ hc hsees
    obtain ⟨-, rfl⟩ := sees_ok hsees
    obtain ⟨-, rfl⟩ := sees_ok hsees'
    cases seen with
    | true =>
      have hagrees : Agrees ⟨[], some tail⟩ s₁
          (do return (some (← Reader.columnConstraint nested), Expecting.columnEnd behind))
          (do return (some (← Reader.columnConstraint nested), Expecting.columnEnd behind)) (Steps []) :=
        clause (columnConstraint hs) fun _ h => h.endsColumn
      refine .inl (.of_agrees hagrees (hreturns (.columnEnd behind)) hc hrest fun x h => ?_)
      change StateT.run (Reader.seesOneOf _ >>= _) _ = _
      rw [StateT.run_bind, hsees']
      exact h
    | false =>
      obtain ⟨comma, c₃, hcomma, hbehind⟩ := bind_ok hrest
      rcases takesSymbol_ok hcomma with ⟨rfl, htaken⟩ | ⟨rfl, rfl, -⟩
      · cases hbehind
        exact .inr ⟨rfl, rfl, Ends.of_taken hc hs.depth htaken (.inl ⟨rfl, rfl⟩)⟩
      · change StateT.run (Reader.symbol ")" >>= _) _ = _ at hbehind
        obtain ⟨_, c₄, hclose, hlast⟩ := bind_ok hbehind
        cases hlast
        exact .inr ⟨rfl, rfl, Ends.of_taken hc hs.depth (discard_takeThat_ok hclose) (.inr ⟨rfl, rfl⟩)⟩
  | constraint => exact .inl (.of_agrees (hconstraint hs) (hreturns .constraintEnd) hc hrun fun _ h => h)
  | nextConstraint => exact .inl (.of_agrees (hconstraint hs) (hreturns .constraintEnd) hc hrun fun _ h => h)
  | constraintEnd =>
    have hs : s.Rests := hs
    obtain ⟨comma, c₃, hcomma, hbehind⟩ := bind_ok hrun
    rcases takesSymbol_ok hcomma with ⟨rfl, htaken⟩ | ⟨rfl, rfl, hunseen⟩
    · cases hbehind
      exact .inr ⟨rfl, rfl, Ends.of_taken hc hs.depth htaken (.inl ⟨rfl, rfl⟩)⟩
    change StateT.run (Reader.takesSymbol ")" >>= _) _ = _ at hbehind
    obtain ⟨close, c₄, hclose, hlast⟩ := bind_ok hbehind
    rcases takesSymbol_ok hclose with ⟨rfl, htaken⟩ | ⟨rfl, rfl, hunclosed⟩
    · cases hlast
      exact .inr ⟨rfl, rfl, Ends.of_taken hc hs.depth htaken (.inr ⟨rfl, rfl⟩)⟩
    -- without a comma another constraint follows in the same item
    cases hlast
    refine .inl ⟨.nextConstraint, none, c', s, ?_, hc, .none, hs.beginsItem⟩
    simp only [Clause.step, StateT.run_bind, run_takesSymbol (hc.unseen_symbol hunseen)]
    change StateT.run (do if ← Reader.takesSymbol ")" then _ else _) c' = _
    rw [StateT.run_bind, run_takesSymbol (hc.unseen_symbol hunclosed)]
    rfl

/-- Clauses are read of an item behind which nothing stands. -/
inductive ReadsAlone (f : Expecting) : Expecting → Cursor → List Clause → Prop where
  | done {c : Cursor} : c.ahead = [] → ReadsAlone f f c []
  | step {e e₁ : Expecting} {c c₁ : Cursor} {k? : Option Clause} {ks : List Clause} :
      (Clause.step nested e).run c = .ok ((k?, e₁), c₁) → e₁.Within f →
      ReadsAlone f e₁ { c₁ with height := e₁.height } ks → ReadsAlone f e c (k?.toList ++ ks)

/-- What is read of an item is read of it alone. -/
theorem Reads.item {e f : Expecting} {ks : List Clause} (h : Reads e c ks .ending c₂) (he : e.Within f) (hs : e.Fits s)
    (hc : Cursor.Alike ⟨[], some tail⟩ s c c') :
    ∃ ks₁ ks₁' ks₂ e₁ c₁, ks = ks₁ ++ ks₂ ∧ ReadsAlone f e c' ks₁' ∧ List.Forall₂ (Clause.Alike []) ks₁ ks₁' ∧
      Ends f tail c₁.ahead e₁ ∧ c₁.ahead.length ≤ c₁.size ∧ Reads e₁ c₁ ks₂ .ending c₂ := by
  generalize hending : Expecting.ending = last at h
  induction h generalizing s c' with
  | done =>
    subst hending
    cases he
  | @step e e₁ _ c c₁ _ k? ks hstep hrest ih =>
    rcases step_item he hs hc hstep with ⟨hwithin, k?', c₁', s₁, hstep', hc₁, hk, hfits⟩ | ⟨rfl, rfl, hempty, hends, hle⟩
    · have hc₂ : Cursor.Alike ⟨[], some tail⟩ s₁ { c₁ with height := e₁.height } { c₁' with height := e₁.height } :=
        { hc₁ with height := rfl }
      obtain ⟨ks₁, ks₁', ks₂, e₂, c₃, rfl, halone, halike, hends, hle, hreads⟩ := ih hwithin hfits hc₂ hending
      refine ⟨k?.toList ++ ks₁, _, ks₂, e₂, c₃, by rw [List.append_assoc], .step hstep' hwithin halone, ?_, hends, hle, hreads⟩
      cases hk with
      | none => exact halike
      | some hk => exact .cons hk halike
    · subst hending
      exact ⟨[], [], ks, e₁, { c₁ with height := e₁.height }, rfl, .done hempty, .nil, hends, hle, hrest⟩

/-! ## Columns, constraints and options -/

/-- An item is a column, of which some clauses are read. -/
structure IsColumn (item : List Lexeme) (ks : List Clause) : Prop where
  isItem : IsItem item
  alone : ∃ behind c, c.ahead = item ∧ ReadsAlone (.columnEnd behind) (.column behind) c ks

/-- An item holds constraints on the table, which are some clauses. -/
structure AreConstraints (item : List Lexeme) (ks : List Clause) : Prop where
  isItem : IsItem item
  alone : ∃ e c, (e = .constraint ∨ e = .nextConstraint) ∧ c.ahead = item ∧ ReadsAlone .constraintEnd e c ks

/-- Items stand in front of the parenthesis that ends them, with commas between them. -/
inductive Listed : List (List Lexeme) → List Lexeme → List Lexeme → Prop where
  | last {l : Lexeme} {item rest : List Lexeme} : l.isSymbol ")" = true → Listed [item] (item ++ l :: rest) rest
  | cons {l : Lexeme} {item ls rest : List Lexeme} {items : List (List Lexeme)} : l.isSymbol "," = true →
      Listed items ls rest → Listed (item :: items) (item ++ l :: ls) rest

/-- Behind the end of a definition there are no clauses. -/
theorem Reads.eq_nil {e e' : Expecting} {ks : List Clause} (h : Reads e c ks e' c₂) (he : e = .ending ∨ e = .nothing) :
    ks = [] := by
  induction h with
  | done => rfl
  | @step e e₁ _ _ _ _ k? ks hstep _ ih =>
    have hnothing : Returns (fun x => x = (none, .nothing)) (Clause.step nested e) := by
      rcases he with rfl | rfl
      · exact .bind fun _ => .pure rfl
      · exact .pure rfl
    obtain ⟨rfl, rfl⟩ := Prod.mk.inj (hnothing _ _ _ hstep)
    exact ih (.inr rfl)

/-- Options come last, and with the end of the definition behind them. -/
theorem Reads.options {e : Expecting} {ks : List Clause} (h : Reads e c ks .ending c₂)
    (he : e = .firstOption ∨ e = .option ∨ e = .optionEnd) :
    ∃ options, ks = options ++ [.finish] ∧ ∀ k ∈ options, k.IsOption := by
  generalize hending : Expecting.ending = last at h
  induction h with
  | done =>
    subst hending
    simp at he
  | @step e e₁ _ _ _ _ k? ks hstep hrest ih =>
    have hoption : Returns (fun x : Option Clause × Expecting => ((x.2 = .firstOption ∨ x.2 = .option ∨ x.2 = .optionEnd) ∧
        ∀ k, x.1 = some k → k.IsOption) ∨ x = (some .finish, .ending)) (Clause.step nested e) := by
      have hread : Returns (fun x : Option Clause × Expecting =>
          ((x.2 = .firstOption ∨ x.2 = .option ∨ x.2 = .optionEnd) ∧ ∀ k, x.1 = some k → k.IsOption) ∨
            x = (some .finish, .ending)) (do return (some (← Reader.tableOption), .optionEnd)) :=
        tableOption_isOption.behind fun k hk => .pure (.inl ⟨.inr (.inr rfl), fun _ h => Option.some.inj h ▸ hk⟩)
      rcases he with rfl | rfl | rfl
      · exact .bind fun _ => .ite hread (.pure (.inl ⟨.inr (.inr rfl), nofun⟩))
      · exact hread
      · exact .bind fun _ => .ite (.pure (.inl ⟨.inr (.inl rfl), nofun⟩)) (.pure (.inr rfl))
    rcases hoption _ _ _ hstep with ⟨hnext, hk⟩ | heq
    · obtain ⟨options, rfl, hoptions⟩ := ih hnext hending
      refine ⟨k?.toList ++ options, by rw [List.append_assoc], fun k hmem => ?_⟩
      rcases List.mem_append.mp hmem with h | h
      · exact hk k (Option.mem_toList.mp h)
      · exact hoptions k h
    · obtain ⟨rfl, rfl⟩ := Prod.mk.inj heq
      rw [hrest.eq_nil (.inl rfl)]
      exact ⟨[], rfl, nofun⟩

/-- An item in front of a run that reads a definition to its end. -/
structure FirstItem (e f : Expecting) (c c₂ : Cursor) (ks : List Clause) (item : List Lexeme) (own rest : List Clause)
    (c₁ : Cursor) : Prop where
  isItem : IsItem item
  alone : ∃ c', c'.ahead = item ∧ ReadsAlone f e c' own
  clauses : ∃ read, ks = read ++ rest ∧ List.Forall₂ (Clause.Alike []) read own
  length_le : c₁.ahead.length ≤ c₁.size
  ends : ∃ l, c.ahead = item ++ l :: c₁.ahead ∧
    (l.isSymbol "," = true ∧ Permitted .item c₁.ahead ∧ Reads f.behindComma c₁ rest .ending c₂ ∨
      l.isSymbol ")" = true ∧ Reads .firstOption c₁ rest .ending c₂)

theorem Reads.firstItem {e f : Expecting} {ks : List Clause} (h : Reads e c ks .ending c₂) (he : e.Within f)
    (hs : e.Fits s) (hdepth : s.depth = 1) (hpermitted : Permitted s c.ahead) (hle : c.ahead.length ≤ c.size) :
    ∃ item own rest c₁, FirstItem e f c c₂ ks item own rest c₁ := by
  obtain ⟨item, tail, hahead, hrespells, htail⟩ := hpermitted.exists_item hdepth.ge
  have hlength : item.length ≤ c.size := by
    rw [hahead, List.length_append] at hle
    omega
  have hc : Cursor.Alike ⟨[], some tail⟩ s c { c with ahead := item } :=
    ⟨hrespells, rfl, rfl, rfl, rfl, hle, hlength⟩
  obtain ⟨read, own, rest, e₁, c₁, rfl, halone, halike, hends, hle₁, hreads⟩ := h.item he hs hc
  have hnext {l : Lexeme} (heq : tail = l :: c₁.ahead) : IsItem item ∧ ∃ s₁ : Spot, s₁.depth = 1 ∧
      Permitted (s₁.behind l) c₁.ahead := by
    obtain ⟨-, henclosed, s₁, hs₁, hpermitted⟩ := htail l c₁.ahead heq
    rw [hdepth] at henclosed
    rw [heq] at hpermitted
    cases hpermitted with
    | cons _ hrest => exact ⟨henclosed, s₁, hs₁, hrest⟩
  cases hends with
  | @comma l hl heq =>
    obtain ⟨hitem, s₁, hs₁, hrest⟩ := hnext heq
    have hbehind : s₁.behind l = .item := by
      rw [Spot.behind_of_isSymbol hl]
      simp [Spot.behindSymbol, hs₁, Spot.item]
    exact ⟨item, own, rest, c₁, hitem, ⟨_, rfl, halone⟩, ⟨read, rfl, halike⟩, hle₁, l, heq ▸ hahead,
      .inl ⟨hl, hbehind ▸ hrest, hreads⟩⟩
  | @close l hl heq =>
    obtain ⟨hitem, -⟩ := hnext heq
    exact ⟨item, own, rest, c₁, hitem, ⟨_, rfl, halone⟩, ⟨read, rfl, halike⟩, hle₁, l, heq ▸ hahead, .inr ⟨hl, hreads⟩⟩

/-- Clauses are read of options, and the end of the definition behind them. -/
def AreOptions (ks : List Clause) : Prop :=
  ∃ options, ks = options ++ [.finish] ∧ ∀ k ∈ options, k.IsOption

theorem AreOptions.alike {ks : List Clause} (h : AreOptions ks) : List.Forall₂ (Clause.Alike []) ks ks := by
  obtain ⟨options, rfl, hoptions⟩ := h
  refine List.rel_append (List.forall₂_same.mpr fun k hk => ?_) (.cons .finish .nil)
  have hoption := hoptions k hk
  cases k <;> first | exact hoption.elim | constructor

/-- Constraints on the table are read item by item. -/
theorem Reads.constraints {c : Cursor} {e : Expecting} {ks : List Clause} (h : Reads e c ks .ending c₂)
    (he : e = .constraint ∨ e = .nextConstraint) (hpermitted : Permitted .item c.ahead) (hle : c.ahead.length ≤ c.size) :
    ∃ items kss options rest, Listed items c.ahead rest ∧ List.Forall₂ AreConstraints items kss ∧ AreOptions options ∧
      List.Forall₂ (Clause.Alike []) ks (kss.flatten ++ options) := by
  have hwithin : e.Within .constraintEnd := by
    rcases he with rfl | rfl
    · exact .constraint
    · exact .nextConstraint
  have hfits : e.Fits .item := by rcases he with rfl | rfl <;> exact Spot.beginsItem_item
  obtain ⟨item, own, behind, c₁, hitem⟩ := h.firstItem hwithin hfits rfl hpermitted hle
  obtain ⟨c', hc', halone⟩ := hitem.alone
  have hfirst : AreConstraints item own := ⟨hitem.isItem, e, c', he, hc', halone⟩
  obtain ⟨read, rfl, halike⟩ := hitem.clauses
  obtain ⟨l, hahead, ⟨hl, hrest, hreads⟩ | ⟨hl, hreads⟩⟩ := hitem.ends
  · have hshorter : c₁.ahead.length < c.ahead.length := by
      rw [hahead, List.length_append, List.length_cons]
      omega
    obtain ⟨items, kss, options, rest, hlisted, hconstraints, hoptions, hclauses⟩ :=
      hreads.constraints (.inr rfl) hrest hitem.length_le
    refine ⟨item :: items, own :: kss, options, rest, hahead ▸ .cons hl hlisted, .cons hfirst hconstraints, hoptions, ?_⟩
    rw [List.flatten_cons, List.append_assoc]
    exact List.rel_append halike hclauses
  · have hoptions : AreOptions behind := hreads.options (.inl rfl)
    refine ⟨[item], [own], behind, c₁.ahead, hahead ▸ .last hl, .cons hfirst .nil, hoptions, ?_⟩
    rw [List.flatten_singleton]
    exact List.rel_append halike hoptions.alike
termination_by c.ahead.length

/-- Behind a comma a column or a constraint on the table is read of what lies ahead. -/
theorem Reads.columnOrConstraint {ks : List Clause} (h : Reads .columnOrConstraint c ks .ending c₂) :
    ∃ e c₁, (e = .constraint ∨ e = .column true) ∧ c₁.ahead = c.ahead ∧ c₁.size = c.size ∧ Reads e c₁ ks .ending c₂ := by
  cases h with
  | @step _ e₁ _ _ c₁ _ k? ks hstep hrest =>
    obtain ⟨seen, c₃, hsees, hbehind⟩ := bind_ok hstep
    obtain ⟨-, rfl⟩ := sees_ok hsees
    cases seen with
    | true =>
      cases hbehind
      exact ⟨.constraint, { c₁ with height := Expecting.constraint.height }, .inl rfl, rfl, rfl, hrest⟩
    | false =>
      cases hbehind
      exact ⟨.column true, { c₁ with height := (Expecting.column true).height }, .inr rfl, rfl, rfl, hrest⟩

/-- Columns are read item by item, and then the constraints on the table. -/
theorem Reads.columns {c : Cursor} {behind : Bool} {ks : List Clause} (h : Reads (.column behind) c ks .ending c₂)
    (hpermitted : Permitted .item c.ahead) (hle : c.ahead.length ≤ c.size) :
    ∃ columns constraints kss css options rest, Listed (columns ++ constraints) c.ahead rest ∧
      List.Forall₂ IsColumn columns kss ∧ List.Forall₂ AreConstraints constraints css ∧ AreOptions options ∧
      List.Forall₂ (Clause.Alike []) ks (kss.flatten ++ (css.flatten ++ options)) := by
  obtain ⟨item, own, behind', c₁, hitem⟩ := h.firstItem (.column behind) rfl rfl hpermitted hle
  obtain ⟨c', hc', halone⟩ := hitem.alone
  have hfirst : IsColumn item own := ⟨hitem.isItem, behind, c', hc', halone⟩
  obtain ⟨read, rfl, halike⟩ := hitem.clauses
  obtain ⟨l, hahead, ⟨hl, hrest, hreads⟩ | ⟨hl, hreads⟩⟩ := hitem.ends
  · obtain ⟨e, c₃, he, hahead₃, hsize, hreads⟩ := hreads.columnOrConstraint
    have hle₃ : c₃.ahead.length ≤ c₃.size := by
      rw [hahead₃, hsize]
      exact hitem.length_le
    rw [← hahead₃] at hrest hahead
    have hshorter : c₃.ahead.length < c.ahead.length := by
      rw [hahead, List.length_append, List.length_cons]
      omega
    rcases he with rfl | rfl
    · obtain ⟨items, css, options, rest, hlisted, hconstraints, hoptions, hclauses⟩ :=
        hreads.constraints (.inl rfl) hrest hle₃
      refine ⟨[item], items, [own], css, options, rest, hahead ▸ .cons hl hlisted, .cons hfirst .nil, hconstraints,
        hoptions, ?_⟩
      rw [List.flatten_singleton]
      exact List.rel_append halike hclauses
    · obtain ⟨columns, constraints, kss, css, options, rest, hlisted, hcolumns, hconstraints, hoptions, hclauses⟩ :=
        hreads.columns hrest hle₃
      refine ⟨item :: columns, constraints, own :: kss, css, options, rest, hahead ▸ .cons hl hlisted,
        .cons hfirst hcolumns, hconstraints, hoptions, ?_⟩
      rw [List.flatten_cons, List.append_assoc]
      exact List.rel_append halike hclauses
  · have hoptions : AreOptions behind' := hreads.options (.inl rfl)
    refine ⟨[item], [], [own], [], behind', c₁.ahead, hahead ▸ .last hl, .cons hfirst .nil, .nil, hoptions, ?_⟩
    rw [List.flatten_singleton]
    exact List.rel_append halike hoptions.alike
termination_by c.ahead.length

/-- A definition is a list of columns and constraints on the table in parentheses, of each of which some clauses are read,
with options behind it. -/
structure Itemized (ls : List Lexeme) (columns constraints : List (List Clause)) (options : List Clause) : Prop where
  listed : ∃ opening body items items' rest, ls = opening :: body ∧ opening.isSymbol "(" = true ∧
    Listed (items ++ items') body rest ∧ List.Forall₂ IsColumn items columns ∧ List.Forall₂ AreConstraints items' constraints
  options : ∀ k ∈ options, k.IsOption

/-- The clauses of a definition are those of its items, each read alone. -/
theorem definition_itemized {ks : List Clause} (h : definition.run c = .ok (ks, c')) (hpermitted : Permitted .start c.ahead)
    (hle : c.ahead.length ≤ c.size) :
    ∃ columns constraints options, Itemized c.ahead columns constraints options ∧
      List.Forall₂ (Clause.Alike []) ks (columns.flatten ++ (constraints.flatten ++ options)) := by
  obtain ⟨_, _, hheight, h⟩ := bind_ok h
  cases hheight
  obtain ⟨_, _, hget, h⟩ := bind_ok h
  cases hget
  obtain ⟨last, c₁, hreads, -⟩ := reads_of_readAll (by simp) (by simp) h
  generalize hall : ks ++ [last] = all at hreads
  cases hreads with
  | @step _ e₁ _ _ c₂ _ k? rest hstep hrest =>
    obtain ⟨opens, c₃, htakes, hbehind⟩ := bind_ok hstep
    rcases takesSymbol_ok htakes with ⟨rfl, l, hahead, hl, hsize⟩ | ⟨rfl, rfl, -⟩
    · cases hbehind
      have hahead : c.ahead = l :: c₂.ahead := hahead
      have hitem : Permitted .item c₂.ahead := by
        rw [hahead] at hpermitted
        cases hpermitted with
        | cons _ h =>
          rw [Spot.behind_of_isSymbol hl] at h
          exact h
      have hlength : c₂.ahead.length ≤ c₂.size := by
        rw [hahead, List.length_cons] at hle
        change c₂.size = c.size at hsize
        omega
      obtain ⟨items, items', columns, constraints, options, behind, hlisted, hcolumns, hconstraints, hoptions, hclauses⟩ :=
        hrest.columns hitem hlength
      obtain ⟨options, rfl, hoption⟩ := hoptions
      refine ⟨columns, constraints, options,
        ⟨⟨l, c₂.ahead, items, items', behind, hahead, hl, hlisted, hcolumns, hconstraints⟩, hoption⟩, ?_⟩
      have hrest : rest = ks ++ [last] := hall.symm
      rw [hrest, ← List.append_assoc, ← List.append_assoc] at hclauses
      have hlength : ks.length = (columns.flatten ++ constraints.flatten ++ options).length := by
        simpa only [List.length_append, List.length_singleton, Nat.add_right_cancel_iff] using hclauses.length_eq
      have htake := List.forall₂_take_append _ _ _ hclauses
      rw [List.take_left' hlength, List.append_assoc] at htake
      exact htake
    · -- a definition that takes its columns from a query is not permitted
      change StateT.run (Reader.word "as" >>= _) _ = _ at hbehind
      obtain ⟨_, c₄, hword, -⟩ := bind_ok hbehind
      obtain ⟨l, hahead, hl, -⟩ := discard_takeThat_ok hword
      have hahead : c.ahead = l :: c₄.ahead := hahead
      rw [hahead] at hpermitted
      cases hpermitted with
      | cons hpermits _ => simp [Spot.isWord_outside rfl hpermits (show "as" ∈ Spot.outsideWords by decide)] at hl

end Clause
end FirstRow.Sql
