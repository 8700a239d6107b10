import FirstRow.Proofs.Sql.Constraints

/-!
# Clauses of two texts

`Clause.step` reads of a respelling what it reads of the text, clause by clause. `Clause.Expecting.Fits` says of the
places of a definition what can be expected there, and `step_agrees` that both readers come to such a place again.
-/
namespace FirstRow.Sql

open Text.Octet (fold)

variable {κ : Licence} {s : Spot}

namespace Spot

/-- A place where a column or a constraint on the table begins. -/
structure BeginsItem (s : Spot) : Prop where
  depth : s.depth = 1
  mode : s.mode = .column ∨ s.mode = .plain

theorem Rests.beginsItem (hs : s.Rests) : s.BeginsItem := ⟨hs.depth, .inr hs.mode⟩

/-- In front of the first item, and behind every comma that ends one, the same is looked for. -/
def item : Spot := ⟨1, .expressions, .column⟩

theorem beginsItem_item : item.BeginsItem := ⟨rfl, .inl rfl⟩

/-- Some words cannot stand in front of the items of a definition. -/
theorem isWord_outside (hs : s.depth = 0) {l : Lexeme} (hl : s.permits l = true) {w : String} (hw : w ∈ outsideWords) :
    l.isWord w = false := by
  rw [permits, if_pos hs, Lexeme.isOneOf_eq_any] at hl
  simp only [Bool.not_eq_true', List.any_eq_false, Bool.not_eq_true] at hl
  exact hl w hw

end Spot

namespace Reader.Agrees

/-! ## Columns -/

/-- A column with its type. -/
theorem column : Agrees κ .item (do let n ← Reader.name; let t ← Reader.type; return Clause.column n t)
    (do let n ← Reader.name; let t ← Reader.type; return Clause.column n t)
    fun s₁ k k' => s₁.EndsColumn ∧ k.Alike κ.names k' := by
  refine (exactName (s := .item) rfl).next fun n n' hn => ?_
  refine (type (s := Spot.item.wants .type) rfl (Nat.le_refl 1) fun _ => rfl).bind ?_
  rintro _ t t' ⟨⟨m, hm, rfl⟩, ht⟩
  subst hn
  exact pure ⟨⟨rfl, hm⟩, .column n ht⟩

/-! ## Constraints on the table -/

/-- The terms of a key, and perhaps something behind them. -/
theorem listedKeys {α : Type} {f f' : List KeyTerm → Reader α} {R : α → α → Prop}
    (hf : ∀ ts ts', List.Forall₂ (KeyTerm.Alike κ.names) ts ts' → Agrees κ ⟨2, .keys, .plain⟩ (f ts) (f' ts')
      (At ⟨2, .keys, .plain⟩ R)) :
    Agrees κ ⟨1, .keys, .plain⟩ (Reader.parenthesized do f (← Reader.keyTerms nested))
      (Reader.parenthesized do f' (← Reader.keyTerms nested)) (Resting R) := by
  refine parenthesized (Q := At ⟨2, .keys, .plain⟩ R) ?_ ?_ ?_
  · exact (keyTerms (s := ⟨2, .keys, .key⟩) ⟨Nat.le_refl 2, rfl⟩ rfl rfl).next hf
  · rintro _ _ _ ⟨rfl, -⟩
    decide
  · rintro _ _ _ ⟨rfl, h⟩
    exact ⟨⟨rfl, rfl⟩, h⟩

/-- The names of columns in parentheses. -/
theorem listedNames : Agrees κ ⟨1, .names, .plain⟩ (Reader.parenthesized Reader.columnNames)
    (Reader.parenthesized Reader.columnNames) (At ⟨1, .expressions, .plain⟩ (· = ·)) := by
  refine parenthesized (columnNames (s := ⟨2, .names, .listed⟩) rfl rfl rfl) ?_ ?_
  · rintro _ _ _ ⟨rfl, -⟩
    decide
  · rintro _ _ _ ⟨rfl, h⟩
    exact ⟨rfl, h⟩

theorem tableConstraint (hs : s.BeginsItem) :
    Agrees κ s (Reader.tableConstraint nested) (Reader.tableConstraint nested) (Resting (Clause.Alike κ.names)) := by
  have hrests : s.shut.Rests := Spot.rests_shut hs.depth
  have hkeeps {w : String} (hw : Lexeme.reserved.contains w = true) : s.mode.keeps w = true :=
    s.mode.keeps_of_reserved hw
  have hkey : (⟨1, .keys, .plain⟩ : Spot).Rests := ⟨rfl, rfl⟩
  have hnames : (⟨1, .names, .plain⟩ : Spot).Rests := ⟨rfl, rfl⟩
  have hbehind : (⟨1, .expressions, .plain⟩ : Spot).Rests := ⟨rfl, rfl⟩
  refine takesElse (takesWord "constraint" (hkeeps (by decide)))
    (Spot.behindWord_rest (w := "constraint") hs.depth (by decide) (by decide) ▸ ?_) ?_
  · have hname := discard (P := At s.shut fun _ _ => True) (restName (κ := κ) hrests) fun _ _ _ h => ⟨h.1, trivial⟩
    exact hname.next fun _ _ _ => pure ⟨hrests, .inert⟩
  refine takesElse (takesWord "primary" (hkeeps (by decide))) (Spot.behindWord_key hs.depth (.inl rfl) ▸ ?_) ?_
  · refine (restWord hkey (by decide)).next fun _ _ _ => ?_
    refine (listedKeys (R := fun x x' => List.Forall₂ (KeyTerm.Alike κ.names) x.1 x'.1 ∧ x.2 = x'.2)
      fun ts ts' hts => ?_).bind ?_
    · refine (optional (Q := At ⟨2, .keys, .plain⟩ fun _ _ => True)
        (P := At ⟨2, .keys, .plain⟩ fun x x' => x.isSome = x'.isSome) (seesWord "autoincrement" rfl)
        (word "autoincrement" rfl) (fun _ _ _ h => ⟨h.1, rfl⟩) ⟨rfl, rfl⟩).next fun x x' hx => ?_
      exact pure ⟨rfl, hts, hx⟩
    · rintro s₁ ⟨ts, counts⟩ ⟨ts', counts'⟩ ⟨hs₁, hts, rfl⟩
      refine (conflict hs₁).next fun c c' hc => ?_
      subst hc
      exact pure ⟨hs₁, .tablePrimaryKey c counts hts⟩
  refine takesElse (takesWord "unique" (hkeeps (by decide))) (Spot.behindWord_key hs.depth (.inr rfl) ▸ ?_) ?_
  · have hterms := listedKeys (κ := κ) (f := fun ts => (Pure.pure ts : Reader (List KeyTerm))) fun ts ts' hts => pure ⟨rfl, hts⟩
    simp only [bind_pure] at hterms
    refine hterms.bind fun s₁ ts ts' ⟨hs₁, hts⟩ => (conflict hs₁).next fun c c' hc => ?_
    subst hc
    exact pure ⟨hs₁, .tableUnique c hts⟩
  refine takesElse (takesWord "check" (hkeeps (by decide))) (Spot.behindWord_expression hs.depth (.inl rfl) ▸ ?_) ?_
  · refine (itemExpr rfl rfl).bind fun s₁ t t' ⟨hs₁, ht⟩ => ?_
    have hconflict := discard (P := At s₁ fun _ _ => True) (conflict (κ := κ) hs₁) fun _ _ _ h => ⟨h.1, trivial⟩
    exact hconflict.next fun _ _ _ => pure ⟨hs₁, .check ht⟩
  · have hwords : Agrees κ s (Reader.words ["foreign", "key"]) (Reader.words ["foreign", "key"])
        (At ⟨1, .names, .plain⟩ fun _ _ => True) := by
      refine (word "foreign" (hkeeps (by decide))).next fun _ _ _ => ?_
      rw [Spot.behindWord_foreign hs.depth]
      exact restWords hnames ["key"] (by decide)
    refine hwords.next fun _ _ _ => listedNames.next fun ns ns' hns => ?_
    refine (word "references" rfl).next fun _ _ _ => ?_
    rw [Spot.behindWord_references (s := ⟨1, .expressions, .plain⟩) rfl]
    have hname : Agrees κ ⟨1, .names, .reference⟩ (Functor.discard Reader.name) (Functor.discard Reader.name)
        (At ⟨1, .names, .plain⟩ fun _ _ => True) :=
      discard (exactName (s := ⟨1, .names, .reference⟩) rfl) fun _ _ _ h => ⟨h.1, trivial⟩
    refine hname.next fun _ _ _ => (referenceRest hnames rfl).bind fun s₁ n n' ⟨hs₁, hn⟩ => ?_
    have hdeferral : Agrees κ s₁
        (Functor.discard (Reader.optional (·.isOneOf ["not", "deferrable"]) Reader.deferral))
        (Functor.discard (Reader.optional (·.isOneOf ["not", "deferrable"]) Reader.deferral))
        (At s₁ fun _ _ => True) := by
      refine discard (optional (Q := At s₁ fun _ _ => True) (P := At s₁ fun _ _ => True)
        (seesOneOf _ (List.all_eq_true.mpr fun w _ => keeps_of_rests hs₁ w)) ?_ (fun _ _ _ h => h) ⟨rfl, trivial⟩)
        fun _ _ _ h => h
      have h := deferral (κ := κ) hs₁.endsColumn
      rwa [hs₁.shut] at h
    subst hns hn
    exact hdeferral.next fun _ _ _ => pure ⟨hs₁, .foreignKey ns n⟩

/-! ## Options -/

theorem tableOption (hs : s = .start) :
    Agrees κ s Reader.tableOption Reader.tableOption (At s (Clause.Alike κ.names)) := by
  subst hs
  have hname : Agrees κ .start Reader.nameLexeme Reader.nameLexeme (At .start fun l l' => fold l.text = fold l'.text) := by
    refine takeThat (fun l l' next hpair _ hl => ⟨hpair.name?_isSome ▸ hl, ?_, (hpair.toSame rfl rfl).text⟩) fun _ h => ?_
    · rw [Spot.behind_of_name? hl (.inr (Nat.zero_le 1))]
      rfl
    · cases h
  refine takesElse (takesWord "without" rfl) ?_ ?_
  · refine hname.next fun l l' hl => pure ⟨rfl, ?_⟩
    rw [← Text.Octet.spells_fold _ l.text, hl, Text.Octet.spells_fold]
    split
    · exact .withoutRowid
    · exact .unknownOption
  · refine hname.next fun l l' hl => pure ⟨rfl, ?_⟩
    rw [← Text.Octet.spells_fold _ l.text, hl, Text.Octet.spells_fold]
    split
    · exact .strict
    · exact .unknownOption

/-- A word that cannot stand in front of the items of a definition. -/
theorem outsideWord (hs : s.depth = 0) {w : String} (hw : Spot.outsideWords.contains w = true) :
    Agrees κ s (Reader.word w) (Reader.word w) fun _ _ _ => False := by
  refine discard (takeThat (P := fun _ _ _ => False) (fun l l' next _ hpermits hl => ?_) ?_) fun _ _ _ h => h
  · rw [Spot.isWord_outside hs hpermits (List.contains_iff_mem.mp hw)] at hl
    cases hl
  · exact fun _ h => absurd h (by omega)

end Reader.Agrees

/-! ## Steps -/

/-- The places of a definition where the next clause can be expected. -/
def Clause.Expecting.Fits : Expecting → Spot → Prop
  | .body, s | .firstOption, s | .option, s | .optionEnd, s | .ending, s | .nothing, s => s = .start
  | .column _, s | .columnOrConstraint, s => s = .item
  | .columnEnd _, s => s.EndsColumn
  | .constraint, s | .nextConstraint, s => s.BeginsItem
  | .constraintEnd, s => s.Rests

/-- Both readers read the same clause, or none, and come to a place where the same is expected. -/
structure Clause.Steps (names : List (List UInt8)) (s : Spot) (x x' : Option Clause × Clause.Expecting) : Prop where
  clause : Option.Rel (Clause.Alike names) x.1 x'.1
  expecting : x.2 = x'.2
  fits : x.2.Fits s

/-- A step with a clause that its reader gives. -/
theorem Reader.Agrees.clause {next : Clause.Expecting} {r : Reader Clause} {P : Spot → Prop}
    (hr : Agrees κ s r r fun s₁ k k' => P s₁ ∧ k.Alike κ.names k') (hP : ∀ s₁, P s₁ → next.Fits s₁) :
    Agrees κ s (do return (some (← r), next)) (do return (some (← r), next)) (Clause.Steps κ.names) :=
  hr.bind fun s₁ _ _ ⟨hs₁, hk⟩ => .pure ⟨.some hk, rfl, hP s₁ hs₁⟩

/-- A step that reads a column. -/
theorem Reader.Agrees.columnStep (behind : Bool) :
    Agrees κ .item (Clause.step nested (.column behind)) (Clause.step nested (.column behind))
      (Clause.Steps κ.names) := by
  have hends (s₁ : Spot) (h : s₁.EndsColumn) : (Clause.Expecting.columnEnd behind).Fits s₁ := h
  simpa only [Clause.step, bind_assoc, pure_bind] using clause Reader.Agrees.column hends

open Reader Reader.Agrees in
theorem Clause.step_agrees (hκ : κ.ends = false) {expecting : Clause.Expecting} (hs : expecting.Fits s) :
    Agrees κ s (Clause.step nested expecting) (Clause.step nested expecting) (Clause.Steps κ.names) := by
  have hstays {s : Spot} (w : String) : Stays κ s w := fun h => by rw [hκ] at h; cases h
  have hskip {s : Spot} {next : Clause.Expecting} (hnext : next.Fits s) :
      Agrees κ s (Pure.pure (none, next)) (Pure.pure (none, next)) (Clause.Steps κ.names) :=
    .pure ⟨.none, rfl, hnext⟩
  cases expecting with
  | body =>
    obtain rfl : s = .start := hs
    refine takesElse (takesSymbol "(" (hstays _)) (hskip rfl) ?_
    exact (outsideWord rfl (by decide)).bind fun _ _ _ h => h.elim
  | column behind =>
    obtain rfl : s = .item := hs
    exact columnStep behind
  | columnEnd behind =>
    have hs : s.EndsColumn := hs
    refine choose (seesOneOf _ (List.all_eq_true.mpr fun w _ => hs.keeps w)) ?_ ?_
    · exact clause (columnConstraint hs) fun _ h => h.endsColumn
    refine takesElse (takesSymbol "," (hstays _)) (hskip ?_) ?_
    · simp [Spot.behindSymbol, hs.depth, Clause.Expecting.Fits, Spot.item]
    · refine (symbol ")" (hstays _)).next fun _ _ _ => hskip ?_
      simp [Spot.behindSymbol, hs.depth, Clause.Expecting.Fits, Spot.start]
  | columnOrConstraint =>
    obtain rfl : s = .item := hs
    exact choose (seesOneOf _ rfl) (hskip Spot.beginsItem_item) (hskip rfl)
  | constraint => exact clause (tableConstraint hs) fun _ h => h
  | nextConstraint => exact clause (tableConstraint hs) fun _ h => h
  | constraintEnd =>
    have hs : s.Rests := hs
    refine takesElse (takesSymbol "," (hstays _)) (hskip ?_) ?_
    · simp only [Spot.behindSymbol, hs.depth]
      exact Spot.beginsItem_item
    refine takesElse (takesSymbol ")" (hstays _)) (hskip ?_) (hskip hs.beginsItem)
    simp [Spot.behindSymbol, hs.depth, Clause.Expecting.Fits, Spot.start]
  | firstOption =>
    obtain rfl : s = .start := hs
    refine choose (sees (fun _ _ _ hpair _ => hpair.name?_isSome) fun _ h => by cases h) ?_ (hskip rfl)
    exact clause (tableOption rfl) fun _ h => h
  | option =>
    obtain rfl : s = .start := hs
    exact clause (tableOption rfl) fun _ h => h
  | optionEnd =>
    obtain rfl : s = .start := hs
    refine takesElse (takesSymbol "," (hstays _)) (hskip rfl) (.pure ⟨.some .finish, rfl, rfl⟩)
  | ending =>
    obtain rfl : s = .start := hs
    exact (symbol ";" (hstays _)).next fun _ _ _ => hskip rfl
  | nothing => exact hskip hs

end FirstRow.Sql
