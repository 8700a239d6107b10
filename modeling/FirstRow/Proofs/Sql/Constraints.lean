import FirstRow.Proofs.Sql.KeyTerms

/-!
# Constraints of two texts

Constraints on columns and on tables are read of a respelling as they are read of the text. Between the parts of a
constraint no parenthesis is open within the item, and nothing can be written in other quotation marks.
-/
namespace FirstRow.Sql

open Text.Octet (fold)

variable {κ : Licence} {s : Spot}

/-! ## Clauses -/

/-- Two clauses that declare a column or constrain it are the same apart from how they are spelled. -/
inductive Clause.Alike (names : List (List UInt8)) : Clause → Clause → Prop where
  | column (n : List UInt8) {t t' : List UInt8} : (ColumnType.ofText t).outline = (ColumnType.ofText t').outline →
      Alike names (.column n t) (.column n t')
  | inert : Alike names .inert .inert
  | notNull : Alike names .notNull .notNull
  | default {t t' : Term} : t.Alike names t' → Alike names (.default t) (.default t')
  | primaryKey (descending : Bool) (conflict : Option Conflict) (counts : Bool) :
      Alike names (.primaryKey descending conflict counts) (.primaryKey descending conflict counts)
  | unique (conflict : Option Conflict) : Alike names (.unique conflict) (.unique conflict)
  | check {t t' : Term} : t.Alike names t' → Alike names (.check t) (.check t')
  | collate (collation : List UInt8) : Alike names (.collate collation) (.collate collation)
  | generated {t t' : Term} {storage storage' : Option (List UInt8)} : t.Alike names t' →
      storage.map fold = storage'.map fold → Alike names (.generated t storage) (.generated t' storage')
  | references {table table' : List UInt8} (columns : Option Nat) :
      Alike names (.references table columns) (.references table' columns)
  | tablePrimaryKey {terms terms' : List KeyTerm} (conflict : Option Conflict) (counts : Bool) :
      List.Forall₂ (KeyTerm.Alike names) terms terms' →
      Alike names (.tablePrimaryKey terms conflict counts) (.tablePrimaryKey terms' conflict counts)
  | tableUnique {terms terms' : List KeyTerm} (conflict : Option Conflict) :
      List.Forall₂ (KeyTerm.Alike names) terms terms' →
      Alike names (.tableUnique terms conflict) (.tableUnique terms' conflict)
  | foreignKey (own : List (List UInt8)) (columns : Option Nat) :
      Alike names (.foreignKey own columns) (.foreignKey own columns)
  | withoutRowid : Alike names .withoutRowid .withoutRowid
  | strict : Alike names .strict .strict
  | unknownOption {text text' : List UInt8} : Alike names (.unknownOption text) (.unknownOption text')
  | finish : Alike names .finish .finish

/-! ## Spots within items -/

namespace Spot

/-- A place between the parts of an item. -/
structure Rests (s : Spot) : Prop where
  depth : s.depth = 1
  mode : s.mode = .plain

theorem Rests.shut (hs : s.Rests) : s.shut = s := shut_of_plain hs.mode

theorem rests_shut (hs : s.depth = 1) : s.shut.Rests := ⟨hs, rfl⟩

theorem behindWord_item (hs : s.depth = 1) {w : String} (hw : Lexeme.reserved.contains w = true) :
    s.behindWord w = s.behindClause w := by
  simp only [behindWord, hw, hs]
  rfl

/-- Words behind which something is looked for within an item. -/
def itemWords : List String :=
  ["default", "set", "check", "as", "primary", "unique", "foreign", "references", "collate"]

/-- Behind any other word nothing is looked for. -/
theorem behindWord_rest (hs : s.depth = 1) {w : String} (hw : Lexeme.reserved.contains w = true)
    (hitem : itemWords.contains w = false) : s.behindWord w = s.shut := by
  rw [behindWord_item hs hw, behindClause]
  simp only [itemWords, List.contains_eq_mem, List.mem_cons, List.not_mem_nil, or_false, decide_eq_false_iff_not,
    not_or] at hitem
  simp [hitem]

theorem behindWord_default (hs : s.depth = 1) (hmode : s.mode ≠ .action) :
    s.behindWord "default" = ⟨1, .expressions, .default⟩ := by
  rw [behindWord_item hs (by decide)]
  simp [behindClause, hs, hmode]

theorem behindWord_expression (hs : s.depth = 1) {w : String} (hw : w = "check" ∨ w = "as") :
    s.behindWord w = ⟨1, .expressions, .plain⟩ := by
  rcases hw with rfl | rfl <;> rw [behindWord_item hs (by decide)] <;> simp [behindClause, hs]

theorem behindWord_key (hs : s.depth = 1) {w : String} (hw : w = "primary" ∨ w = "unique") :
    s.behindWord w = ⟨1, .keys, .plain⟩ := by
  rcases hw with rfl | rfl <;> rw [behindWord_item hs (by decide)] <;> simp [behindClause, hs]

theorem behindWord_foreign (hs : s.depth = 1) : s.behindWord "foreign" = ⟨1, .names, .plain⟩ := by
  rw [behindWord_item hs (by decide)]
  simp [behindClause, hs]

theorem behindWord_references (hs : s.depth = 1) : s.behindWord "references" = ⟨1, .names, .reference⟩ := by
  rw [behindWord_item hs (by decide)]
  simp [behindClause, hs]

theorem behindWord_collation (hs : s.depth = 1) : s.behindWord "collate" = s.wants .collation := by
  rw [behindWord_item hs (by decide)]
  simp [behindClause, wants]

/-- Behind a word that is not reserved nothing is looked for but more words of a type. -/
theorem behindWord_bare (hs : s.depth = 1) {w : String} (hw : Lexeme.reserved.contains w = false) :
    s.behindWord w = s.wants s.mode.behindName := by
  have hfree : w ∉ Lexeme.reserved := by simpa using hw
  simp [behindWord, hfree, hs, wants]

/-- Between the parts of an item nothing changes behind words but those that stand in front of something. -/
theorem Rests.behindWord (hs : s.Rests) {w : String} (hw : itemWords.contains w = false) : s.behindWord w = s := by
  cases hreserved : Lexeme.reserved.contains w with
  | true => rw [behindWord_rest hs.depth hreserved hw, hs.shut]
  | false =>
    rw [behindWord_bare hs.depth hreserved, hs.mode]
    exact hs.shut

end Spot

namespace Reader

/-- Both readers come to a place between the parts of an item. -/
def Resting {α β : Type} (R : α → β → Prop) (s : Spot) (a : α) (b : β) : Prop := s.Rests ∧ R a b

namespace Agrees

variable {α β : Type}

theorem keeps_of_rests (hs : s.Rests) (w : String) : s.mode.keeps w = true := by
  rw [hs.mode]
  simp [Mode.keeps, Mode.isName, Mode.isOperand]

/-- A word of a constraint. -/
theorem restWord (hs : s.Rests) {w : String} (hw : Spot.itemWords.contains w = false) :
    Agrees κ s (Reader.word w) (Reader.word w) (At s fun _ _ => True) := by
  have hword := word (κ := κ) w (keeps_of_rests hs w)
  rwa [hs.behindWord hw] at hword

/-- A word of a constraint that may be left out. -/
theorem restTakes (hs : s.Rests) {w : String} (hw : Spot.itemWords.contains w = false) :
    Agrees κ s (Reader.takesWord w) (Reader.takesWord w) (At s (· = ·)) :=
  takesStaying (keeps_of_rests hs w) (hs.behindWord hw)

theorem restWords (hs : s.Rests) (ws : List String) (hws : ∀ w ∈ ws, Spot.itemWords.contains w = false) :
    Agrees κ s (Reader.words ws) (Reader.words ws) (At s fun _ _ => True) := by
  induction ws with
  | nil => exact pure ⟨rfl, trivial⟩
  | cons w ws ih =>
    have hrest := ih fun v hv => hws v (List.mem_cons_of_mem _ hv)
    exact (restWord hs (hws w List.mem_cons_self)).next fun _ _ _ => hrest

/-- One of several words of a constraint. -/
theorem restOneOf (hs : s.Rests) {ws : List String} (hws : ∀ w ∈ ws, Spot.itemWords.contains w = false) :
    Agrees κ s (Reader.oneOf ws) (Reader.oneOf ws) (At s fun _ _ => True) := by
  refine (oneOf ws (List.all_eq_true.mpr fun w _ => keeps_of_rests hs w)).mono ?_
  rintro _ l l' ⟨-, w, hw, -, rfl⟩
  exact ⟨hs.behindWord (hws w hw), trivial⟩

theorem resolution (hs : s.Rests) : Agrees κ s Reader.resolution Reader.resolution (At s (· = ·)) := by
  refine take (fun l l' next c hpair _ hl => ?_) fun _ _ l hend => ?_
  · have hsame := hpair.toSame (by rw [hs.mode]; rfl) (by rw [hs.mode]; rfl)
    refine ⟨c, ?_, ?_, rfl⟩
    · simpa only [← hsame.isWord] using hl
    · have hbehind {w : String} (hw : l.isWord w = true) (hitem : Spot.itemWords.contains w = false) :
          s.behind l = s := (Spot.behind_of_isWord hw).trans (hs.behindWord hitem)
      split at hl
      · exact hbehind ‹_› (by decide)
      split at hl
      · exact hbehind ‹_› (by decide)
      split at hl
      · exact hbehind ‹_› (by decide)
      split at hl
      · exact hbehind ‹_› (by decide)
      split at hl
      · exact hbehind ‹_› (by decide)
      · cases hl
  · simp [isWord_of_endsItem hend]

theorem conflict (hs : s.Rests) : Agrees κ s Reader.conflict Reader.conflict (At s (· = ·)) := by
  refine optional (Q := At s (· = ·)) ?_ ?_ (fun _ _ _ h => ⟨h.1, congrArg some h.2⟩) ⟨rfl, rfl⟩
  · exact seesOneOf _ (List.all_eq_true.mpr fun w _ => keeps_of_rests hs w)
  · exact (restWords hs _ (by decide)).next fun _ _ _ => resolution hs

/-! ## References -/

/-- What is to be done to values when the row changes that they refer to. -/
theorem setAction (hs : s.Rests) :
    Agrees κ (s.wants .action) (Reader.oneOf ["null", "default"]) (Reader.oneOf ["null", "default"])
      (At s fun _ _ => True) := by
  refine (oneOf ["null", "default"] rfl).mono ?_
  rintro _ l l' ⟨-, w, hw, -, rfl⟩
  have hreserved : ∀ w ∈ ["null", "default"], Lexeme.reserved.contains w = true := by decide
  refine ⟨?_, trivial⟩
  rw [Spot.behindWord_item (s := s.wants .action) hs.depth (hreserved w hw)]
  rw [List.mem_cons, List.mem_singleton] at hw
  rcases hw with rfl | rfl <;> exact hs.shut

theorem restName (hs : s.Rests) : Agrees κ s Reader.name Reader.name (At s fun n n' => fold n = fold n') := by
  refine take (fun l l' next n hpair _ hl => ?_) fun _ _ l hend => name?_of_endsItem hend
  have hfold := hpair.fold_name?
  rw [hl] at hfold
  obtain ⟨n', hn', hfold⟩ := Option.map_eq_some_iff.mp hfold.symm
  refine ⟨n', hn', ?_, hfold.symm⟩
  rw [Spot.behind_of_name? (by rw [hl]; rfl) (.inr (Nat.le_of_eq hs.depth)), hs.mode]
  exact hs.shut

theorem referenceAction (hs : s.Rests) :
    Agrees κ s Reader.referenceAction Reader.referenceAction (At s fun _ _ => True) := by
  have hdone {α : Type} {r : Reader α} (hr : Agrees κ s r r (At s fun _ _ => True)) :
      Agrees κ s (Functor.discard r) (Functor.discard r) (At s fun _ _ => True) := discard hr fun _ _ _ h => h
  have hset : s.behindWord "set" = s.wants .action := by
    rw [Spot.behindWord_item hs.depth (by decide)]
    rfl
  refine takesElse (t := s) ?_ ?_ ?_
  · exact (restTakes hs (by decide)).mono fun _ _ _ h => ⟨h.2, by rw [h.1, ite_self]⟩
  · exact discard (restName hs) fun _ _ _ h => ⟨h.1, trivial⟩
  refine (restWord hs (by decide)).next fun _ _ _ => ?_
  refine next (t := s) (A := fun _ _ => True) (discard (restOneOf hs (by decide)) fun _ _ _ h => h) fun _ _ _ => .phrase ?_
  refine takesElse (takesWord "set" (keeps_of_rests hs _)) ?_ ?_
  · rw [hset]
    exact discard (setAction hs) fun _ _ _ h => h
  refine takesElse (t := s) ?_ ?_ ?_
  · exact (restTakes hs (by decide)).mono fun _ _ _ h => ⟨h.2, by rw [h.1, ite_self]⟩
  · exact restWord hs (by decide)
  · exact discard (restOneOf hs (by decide)) fun _ _ _ h => h

/-- The rest of a reference, behind the name of the other table. -/
theorem referenceRest (hs : s.Rests) (hlisting : s.listing = .names) :
    Agrees κ s Reader.referenceRest Reader.referenceRest (Resting (· = ·)) := by
  have hopen : s.behindSymbol "(" = ⟨2, .names, .listed⟩ := by
    simp [Spot.behindSymbol, hs.depth, hlisting, Listing.mode]
  have hclose : (⟨2, .names, .plain⟩ : Spot).behindSymbol ")" = ⟨1, .expressions, .plain⟩ := by decide
  have hcolumns : Agrees κ s Reader.columnNames? Reader.columnNames? (Resting (· = ·)) := by
    refine optional (Q := Resting (· = ·)) (seesSymbol "(" fun _ _ => by decide) ?_
      (fun _ _ _ h => ⟨h.1, congrArg some h.2⟩) ⟨hs, rfl⟩
    have hnames := columnNames (κ := κ) (s := ⟨2, .names, .listed⟩) rfl rfl rfl
    rw [← hopen] at hnames
    refine parenthesized hnames ?_ ?_ <;> rw [hopen]
    · rintro _ ns ns' ⟨rfl, -⟩
      decide
    · rintro _ ns ns' ⟨rfl, h⟩
      exact ⟨⟨rfl, rfl⟩, h⟩
  refine hcolumns.bind ?_
  rintro t ns ns' ⟨ht, hns⟩
  refine next (t := t) (A := fun _ _ => True) (vacant ⟨rfl, trivial⟩) fun _ _ _ => ?_
  refine next (t := t) (A := fun _ _ => True) (discard (many ?_ (referenceAction ht)) fun _ _ _ h => ⟨h.1, trivial⟩) ?_
  · exact seesOneOf _ (List.all_eq_true.mpr fun w _ => keeps_of_rests ht w)
  · exact fun _ _ _ => pure ⟨ht, by rw [hns]⟩

/-! ## Defaults -/

/-- Where no expression begins, nothing is looked for behind a literal. -/
theorem restLiteral (hs : s.depth = 1) (hmode : s.mode = .plain ∨ s.mode = .default) :
    Agrees κ s Reader.literal Reader.literal (At s.shut (Term.Alike κ.names)) := by
  have hname : s.mode.behindName = .plain := by rcases hmode with h | h <;> rw [h] <;> rfl
  refine literalOf (fun l l' next hpair _ => ?_) fun l e hl => ?_
  · rcases hmode with h | h <;> exact hpair.toSame (by rw [h]; rfl) (by rw [h]; rfl)
  · have hother : s.behindOther = s.shut := by
      rw [Spot.behindOther, hname]
      rfl
    unfold literal? at hl
    unfold Spot.behind
    split at hl
    case h_5 k w htoken =>
      simp only [htoken]
      split at hl
      · next hnull =>
        rw [beq_iff_eq] at hnull
        rw [hnull, Spot.behindWord_rest hs (by decide) (by decide)]
      · split at hl
        · next hdate =>
          have hwords : ∀ w ∈ ["current_date", "current_time", "current_timestamp"],
              Lexeme.reserved.contains w = false := by decide
          rw [Spot.behindWord_bare hs (hwords k (List.contains_iff_mem.mp hdate)), hname]
          rfl
        · cases hl
    case h_6 => cases hl
    all_goals simp_all

/-- The name that a default is. -/
theorem defaultName (hmode : s.mode = .default) :
    AgreesWhere κ s (·.head?.any (fun l => (literal? l).isSome) = false)
      (do
        let l ← Reader.takeThat isIdentifier
        let n := l.name?.getD []
        let bare : Name := ⟨n, none⟩
        match l.token, bare.truth? with
        | .quoted _ _, _ => return .leaf (.string n)
        | _, some b => return .leaf (.truth b)
        | _, none => return .leaf (.string n))
      (do
        let l ← Reader.takeThat isIdentifier
        let n := l.name?.getD []
        let bare : Name := ⟨n, none⟩
        match l.token, bare.truth? with
        | .quoted _ _, _ => return .leaf (.string n)
        | _, some b => return .leaf (.truth b)
        | _, none => return .leaf (.string n)) (At s.shut (Term.Alike κ.names)) := by
  refine .bind (Q := fun s₁ l l' => s₁ = s.shut ∧ l.Same l' ∧
      (l.name? = l'.name? ∨ (literal? l).isSome = false ∧ l.isConstantWord = true)) (.takeThat ?_ ?_) ?_
  · exact fun _ _ l hend => by simp [isIdentifier, name?_of_endsItem hend]
  · intro l l' ls hliteral hpair hl
    have hsame := hpair.toSame (by rw [hmode]; rfl) (by rw [hmode]; rfl)
    have hsome : l.name?.isSome = true := by
      simp only [isIdentifier, Bool.and_eq_true] at hl
      exact hl.1.1
    refine ⟨hsame.isIdentifier ▸ hl, ?_, hsame, ?_⟩
    · rw [Spot.behind_of_name? hsome (.inl (by simp [hmode])), hmode]
      rfl
    · cases hpair with
      | same _ hexact => exact (hexact (by rw [hmode]; rfl)).imp_right fun h => ⟨by simpa using hliteral, h.2⟩
      | name h => simp [hmode, Mode.isName] at h
      | operand _ h => simp [hmode, Mode.isOperand] at h
      | key _ h => simp [hmode] at h
  · rintro _ l l' ⟨rfl, hsame, hname⟩
    have hfold : fold (l.name?.getD []) = fold (l'.name?.getD []) := by
      have := hsame.name?
      cases hn : l.name? <;> cases hn' : l'.name? <;> simp_all
    have htruth := Name.truth?_eq_of_fold hfold
    -- what is no truth value stands for a string, which is the same only in the same letter case
    have hstring (hnone : (Name.mk (l.name?.getD []) none).truth? = none) : l.name?.getD [] = l'.name?.getD [] := by
      rcases hname with hname | ⟨hliteral, hconstant⟩
      · rw [hname]
      · have hnone' : l.name? = none := by
          by_contra hsome
          obtain ⟨n, hn⟩ := Option.ne_none_iff_exists'.mp hsome
          rw [hn, Option.getD_some] at hnone
          rw [Lexeme.isConstantWord, hliteral, Bool.false_or] at hconstant
          unfold Lexeme.isTruth at hconstant
          unfold Lexeme.name? at hn
          cases htoken : l.token <;> simp_all
        have hsome := hsame.name?_isSome
        rw [hnone', Option.isSome_none] at hsome
        rw [hnone', Option.isSome_eq_false_iff.mp hsome.symm |> Option.isNone_iff_eq_none.mp]
    rcases hsame.token_cases with htoken | ⟨k, w, w', htoken, htoken', -⟩ | ⟨w, w', htoken, htoken', -⟩
    · have hname : l'.name? = l.name? := by simp only [Lexeme.name?, htoken]
      simp only [htoken, hname]
      split <;> exact pure ⟨rfl, .leaf rfl⟩
    all_goals
      simp only [htoken, htoken', ← htruth]
      cases hvalue : (Name.mk (l.name?.getD []) none).truth? with
      | some b => exact pure ⟨rfl, .leaf rfl⟩
      | none =>
        rw [← hstring hvalue]
        exact pure ⟨rfl, .leaf rfl⟩

/-- An expression in the parentheses of an item. -/
theorem itemExpr (hs : s.depth = 1) (hlisting : s.listing = .expressions) :
    Agrees κ s (Reader.parenthesized nested.whole) (Reader.parenthesized nested.whole)
      (Resting (Term.Alike κ.names)) := by
  have hopen : s.behindSymbol "(" = ⟨2, .expressions, .operand⟩ := by
    simp [Spot.behindSymbol, hs, hlisting, Listing.mode]
  have hwhole := whole (nested_agrees κ) (s := ⟨2, .expressions, .operand⟩) ⟨Nat.le_refl 2, .inl rfl⟩
  rw [← hopen] at hwhole
  refine parenthesized hwhole ?_ ?_ <;> rw [hopen]
  · rintro _ t t' ⟨rfl, -⟩
    decide
  · rintro _ t t' ⟨rfl, ht⟩
    exact ⟨⟨rfl, rfl⟩, ht⟩

theorem defaultTerm (hs : s = ⟨1, .expressions, .default⟩) :
    Agrees κ s (Reader.defaultTerm nested) (Reader.defaultTerm nested) (Resting (Term.Alike κ.names)) := by
  subst hs
  have hrests : (⟨1, .expressions, .plain⟩ : Spot).Rests := ⟨rfl, rfl⟩
  have hsign {t : String} (ht : t = "+" ∨ t = "-") :
      (⟨1, .expressions, .default⟩ : Spot).behindSymbol t = ⟨1, .expressions, .plain⟩ := by
    rcases ht with rfl | rfl <;> decide
  have hvacant {u : Spot} : Agrees κ u Reader.vacant Reader.vacant (At u fun _ _ => True) := vacant ⟨rfl, trivial⟩
  have hliteral {u : Spot} (hu : u.shut = ⟨1, .expressions, .plain⟩) (hmode : u.mode = .plain ∨ u.mode = .default) :
      Agrees κ u Reader.literal Reader.literal (Resting (Term.Alike κ.names)) :=
    (restLiteral (s := u) (congrArg Spot.depth hu) hmode).mono fun s₁ _ _ h => ⟨by rw [h.1, hu]; exact hrests, h.2⟩
  refine choose (seesSymbol "(" fun _ _ => by decide) (itemExpr rfl rfl) ?_
  refine takesElse (takesSymbol "+" fun _ _ => by decide) ?_ ?_
  · rw [hsign (.inl rfl)]
    exact hvacant.next fun _ _ _ => hliteral rfl (.inl rfl)
  refine takesElse (takesSymbol "-" fun _ _ => by decide) ?_ ?_
  · rw [hsign (.inr rfl)]
    refine hvacant.next fun _ _ _ => (hliteral rfl (.inl rfl)).bind fun s₁ t t' ⟨hs₁, ht⟩ => ?_
    exact (node (by simp [Expr.outline, ht.expr]) (.cons ht .nil)).mono fun _ _ _ h => ⟨h.1 ▸ hs₁, h.2⟩
  refine hvacant.next fun _ _ _ => chooseWhere ?_ (.of (hliteral rfl (.inr rfl))) ?_
  · exact sees (fun l l' next hpair _ => (hpair.toSame rfl rfl).literal?_isSome) fun _ _ l hend => by
      simp [literal?_of_endsItem hend]
  · exact (defaultName rfl).weaken fun _ _ _ h => ⟨by rw [h.1]; exact hrests, h.2⟩

/-! ## Constraints on columns -/

/-- The expression of a computed column, and the word behind it. -/
theorem generatedRest (hs : s.depth = 1) (hlisting : s.listing = .expressions) :
    Agrees κ s (Reader.generatedRest nested) (Reader.generatedRest nested) (Resting (Clause.Alike κ.names)) := by
  refine .phrase ((itemExpr hs hlisting).bind fun s₁ t t' ⟨hs₁, ht⟩ => ?_)
  have hidentifier {l l' : Lexeme} {next : Option Lexeme} (hpair : Pair κ s₁ l l' next) : l.Same l' :=
    hpair.toSame (by rw [hs₁.mode]; rfl) (by rw [hs₁.mode]; rfl)
  have hends {l : Lexeme} (hend : l.endsItem = true) : isIdentifier l = false := by
    simp [isIdentifier, name?_of_endsItem hend]
  refine choose ?_ ?_ (pure ⟨hs₁, .generated ht rfl⟩)
  · refine sees (fun l l' next hpair _ => ?_) fun _ _ l hend => by simp [hends hend]
    rw [(hidentifier hpair).isIdentifier, (hidentifier hpair).isWord]
  · have htake : Agrees κ s₁ (Reader.takeThat isIdentifier) (Reader.takeThat isIdentifier) (At s₁ Lexeme.Same) := by
      refine takeThat (fun l l' next hpair _ hl => ?_) fun _ _ l => hends
      refine ⟨(hidentifier hpair).isIdentifier ▸ hl, ?_, hidentifier hpair⟩
      simp only [isIdentifier, Bool.and_eq_true] at hl
      rw [Spot.behind_of_name? hl.1.1 (.inr (Nat.le_of_eq hs₁.depth)), hs₁.mode]
      exact hs₁.shut
    exact htake.next fun l l' hl => pure ⟨hs₁, .generated ht (congrArg some hl.text)⟩

end Agrees

end Reader

/-- A place where a column can end: behind its type or a constraint on it. -/
structure Spot.EndsColumn (s : Spot) : Prop where
  depth : s.depth = 1
  mode : s.mode = .type ∨ s.mode = .typed ∨ s.mode = .plain

namespace Spot

theorem Rests.endsColumn (hs : s.Rests) : s.EndsColumn := ⟨hs.depth, .inr (.inr hs.mode)⟩

namespace EndsColumn

theorem keeps (hs : s.EndsColumn) (w : String) : s.mode.keeps w = true := by
  rcases hs.mode with h | h | h <;> rw [h] <;> simp [Mode.keeps, Mode.isName, Mode.isOperand]

theorem toSame (hs : s.EndsColumn) {l l' : Lexeme} {next : Option Lexeme} (h : Pair κ s l l' next) : l.Same l' := by
  rcases hs.mode with hmode | hmode | hmode <;> exact h.toSame (by rw [hmode]; rfl) (by rw [hmode]; rfl)

theorem behindName (hs : s.EndsColumn) : (s.wants s.mode.behindName).EndsColumn := by
  refine ⟨hs.depth, ?_⟩
  rcases hs.mode with h | h | h <;> rw [h]
  · exact .inr (.inl rfl)
  · exact .inr (.inl rfl)
  · exact .inr (.inr rfl)

end EndsColumn

end Spot

namespace Reader.Agrees

/-- When a reference is checked. -/
theorem deferral (hs : s.EndsColumn) :
    Agrees κ s Reader.deferral Reader.deferral (At s.shut fun _ _ => True) := by
  have hrests : s.shut.Rests := Spot.rests_shut hs.depth
  have hnot : s.behindWord "not" = s.shut := Spot.behindWord_rest hs.depth (by decide) (by decide)
  have htakes : Agrees κ s (Functor.discard (Reader.takesWord "not")) (Functor.discard (Reader.takesWord "not"))
      fun s₁ _ _ => s₁ = s ∨ s₁ = s.shut := by
    refine discard (takesWord "not" (hs.keeps _)) fun s₁ x _ h => ?_
    rw [h.2, hnot]
    cases x with
    | true => exact .inr rfl
    | false => exact .inl rfl
  refine htakes.bind fun s₁ _ _ hs₁ => ?_
  have hword : Agrees κ s₁ (Reader.word "deferrable") (Reader.word "deferrable") (At s.shut fun _ _ => True) := by
    rcases hs₁ with rfl | rfl
    · rw [← Spot.behindWord_rest (w := "deferrable") hs.depth (by decide) (by decide)]
      exact word "deferrable" (hs.keeps _)
    · exact restWord hrests (by decide)
  refine hword.next fun _ _ _ => ?_
  refine discard (optional (Q := At s.shut fun _ _ => True) (P := At s.shut fun _ _ => True)
    (seesWord "initially" (keeps_of_rests hrests _)) ?_ (fun _ _ _ h => h) ⟨rfl, trivial⟩) fun _ _ _ h => h
  exact (restWord hrests (by decide)).next fun _ _ _ => restOneOf hrests (by decide)

/-- The name of another table. -/
theorem referenceName (hs : s.mode = .reference) :
    Agrees κ s Reader.nameLexeme Reader.nameLexeme (At s.shut fun _ _ => True) := by
  refine takeThat (fun l l' next hpair _ hl => ⟨hpair.name?_isSome ▸ hl, ?_, trivial⟩) fun _ _ l hend => ?_
  · rw [Spot.behind_of_name? hl (.inl (by simp [hs])), hs]
    rfl
  · simp [name?_of_endsItem hend]

/-- Values must not be null, or a reference is checked at once: that depends on the second word. -/
theorem required (hs : s.EndsColumn) :
    AgreesWhere κ s (·.head?.any (·.isWord "not") = true)
      (do
        match (← MonadState.get).ahead with
        | _ :: l :: _ =>
          if l.isWord "deferrable" then
            Reader.deferral
            return .inert
          else Reader.columnConstraint.required
        | _ => Reader.columnConstraint.required)
      (do
        match (← MonadState.get).ahead with
        | _ :: l :: _ =>
          if l.isWord "deferrable" then
            Reader.deferral
            return .inert
          else Reader.columnConstraint.required
        | _ => Reader.columnConstraint.required) (Resting (Clause.Alike κ.names)) := by
  have hrests : s.shut.Rests := Spot.rests_shut hs.depth
  have hbehind : s.behindWord "not" = s.shut := Spot.behindWord_rest hs.depth (by decide) (by decide)
  have hdeferral : Agrees κ s (do Reader.deferral; return Clause.inert) (do Reader.deferral; return Clause.inert)
      (Resting (Clause.Alike κ.names)) := (deferral hs).next fun _ _ _ => pure ⟨hrests, .inert⟩
  have hrequired : Agrees κ s Reader.columnConstraint.required Reader.columnConstraint.required
      (Resting (Clause.Alike κ.names)) := by
    have hwords : Agrees κ s (Reader.words ["not", "null"]) (Reader.words ["not", "null"])
        (At s.shut fun _ _ => True) := by
      refine (word "not" (hs.keeps _)).next fun _ _ _ => ?_
      rw [hbehind]
      exact restWords hrests ["null"] (by decide)
    refine hwords.next fun _ _ _ => ?_
    have hconflict := discard (P := At s.shut fun _ _ => True) (conflict (κ := κ) hrests) fun _ _ _ h => ⟨h.1, trivial⟩
    exact hconflict.next fun _ _ _ => pure ⟨hrests, .notNull⟩
  intro c c' k c₁ hc hnot hrun
  change (match c.ahead with
    | _ :: l :: _ => if l.isWord "deferrable" then do Reader.deferral; return Clause.inert
      else Reader.columnConstraint.required
    | _ => Reader.columnConstraint.required).run c = _ at hrun
  change ∃ b c₁' s₁, (match c'.ahead with
    | _ :: l :: _ => if l.isWord "deferrable" then do Reader.deferral; return Clause.inert
      else Reader.columnConstraint.required
    | _ => Reader.columnConstraint.required).run c' = _ ∧ _
  have hrespells := hc.ahead
  cases hahead : c.ahead with
  | nil => simp [hahead] at hnot
  | cons x rest =>
    rw [hahead] at hnot hrespells hrun
    have hx : x.isWord "not" = true := by simpa using hnot
    cases hahead' : c'.ahead with
    | nil =>
      rw [hahead'] at hrespells
      cases hrespells with
      | cut _ _ hend => simp [isWord_of_endsItem hend] at hx
    | cons x' rest' =>
      rw [hahead'] at hrespells
      cases hrespells with
      | cons _ _ _ hrest =>
        rw [Spot.behind_of_isWord hx, hbehind] at hrest
        cases hrest with
        | nil => exact hrequired c c' k c₁ hc hrun
        | @cut _ l _ _ _ hend =>
          simp only [isWord_of_endsItem hend] at hrun
          exact hrequired c c' k c₁ hc hrun
        | @cons _ l l' _ _ _ hpair =>
          simp only [← (hpair.toSame rfl rfl).isWord]
          simp only at hrun
          split at hrun
          · next h =>
            rw [if_pos h]
            exact hdeferral c c' k c₁ hc hrun
          · next h =>
            rw [if_neg h]
            exact hrequired c c' k c₁ hc hrun

theorem columnConstraint (hs : s.EndsColumn) :
    Agrees κ s (Reader.columnConstraint nested) (Reader.columnConstraint nested) (Resting (Clause.Alike κ.names)) := by
  have hrests : s.shut.Rests := Spot.rests_shut hs.depth
  have hmode : s.mode ≠ .action := by rcases hs.mode with h | h | h <;> rw [h] <;> decide
  have hrest {w : String} (hw : Lexeme.reserved.contains w = true) (hitem : Spot.itemWords.contains w = false) :
    s.behindWord w = s.shut := Spot.behindWord_rest hs.depth hw hitem
  have hinert {α : Type} {r : Reader α} {R : α → α → Prop} (hr : Agrees κ s.shut r r (At s.shut R)) :
      Agrees κ s.shut (do Functor.discard r; return Clause.inert) (do Functor.discard r; return Clause.inert)
        (Resting (Clause.Alike κ.names)) := by
    have hdiscard := discard (P := At s.shut fun _ _ => True) hr fun _ _ _ h => ⟨h.1, trivial⟩
    exact hdiscard.next fun _ _ _ => pure ⟨hrests, .inert⟩
  have hgenerated : Agrees κ ⟨1, .expressions, .plain⟩ (Reader.generatedRest nested) (Reader.generatedRest nested)
      (Resting (Clause.Alike κ.names)) := generatedRest rfl rfl
  have hkey : (⟨1, .keys, .plain⟩ : Spot).Rests := ⟨rfl, rfl⟩
  refine takesElse (takesWord "constraint" (hs.keeps _)) (hrest (w := "constraint") (by decide) (by decide) ▸ ?_) ?_
  · exact hinert (restName hrests)
  refine takesElse (takesWord "default" (hs.keeps _)) (Spot.behindWord_default hs.depth hmode ▸ ?_) ?_
  · exact (defaultTerm rfl).bind fun s₁ t t' ⟨hs₁, ht⟩ => pure ⟨hs₁, .default ht⟩
  refine takesElse (takesWord "null" (hs.keeps _)) (hrest (w := "null") (by decide) (by decide) ▸ ?_) ?_
  · exact hinert (conflict hrests)
  refine choose (seesWord "deferrable" (hs.keeps _)) ?_ ?_
  · exact (deferral hs).next fun _ _ _ => pure ⟨hrests, .inert⟩
  refine chooseWhere (seesWord "not" (hs.keeps _)) (required hs) (.of ?_)
  refine takesElse (takesWord "primary" (hs.keeps _)) (Spot.behindWord_key hs.depth (.inl rfl) ▸ ?_) ?_
  · refine (restWord hkey (by decide)).next fun _ _ _ => (order rfl).next fun d d' hd => ?_
    refine (conflict hkey).next fun c c' hc => ?_
    have hcounts : Agrees κ ⟨1, .keys, .plain⟩
        (Reader.optional (·.isWord "autoincrement") (Reader.word "autoincrement"))
        (Reader.optional (·.isWord "autoincrement") (Reader.word "autoincrement"))
        (At ⟨1, .keys, .plain⟩ fun x x' => x.isSome = x'.isSome) :=
      optional (seesWord "autoincrement" rfl) (restWord hkey (by decide)) (fun _ _ _ h => ⟨h.1, rfl⟩) ⟨rfl, rfl⟩
    refine hcounts.next fun x x' hx => pure ⟨hkey, ?_⟩
    rw [hd, hc, hx]
    exact .primaryKey _ _ _
  refine takesElse (takesWord "unique" (hs.keeps _)) (Spot.behindWord_key hs.depth (.inr rfl) ▸ ?_) ?_
  · refine (conflict hkey).next fun c c' hc => pure ⟨hkey, ?_⟩
    rw [hc]
    exact .unique _
  refine takesElse (takesWord "check" (hs.keeps _)) (Spot.behindWord_expression hs.depth (.inl rfl) ▸ ?_) ?_
  · exact (itemExpr rfl rfl).bind fun s₁ t t' ⟨hs₁, ht⟩ => pure ⟨hs₁, .check ht⟩
  refine takesElse (takesWord "references" (hs.keeps _)) (Spot.behindWord_references hs.depth ▸ ?_) ?_
  · refine (referenceName rfl).next fun l l' _ => (referenceRest ⟨rfl, rfl⟩ rfl).bind fun s₁ n n' ⟨hs₁, hn⟩ => ?_
    rw [hn]
    exact pure ⟨hs₁, .references _⟩
  refine takesElse (takesWord "collate" (hs.keeps _)) (Spot.behindWord_collation hs.depth ▸ ?_) ?_
  · refine (collationName (s := s)).next fun n n' hn => ?_
    rw [hn]
    exact pure ⟨hrests, .collate _⟩
  refine takesElse (takesWord "generated" (hs.keeps _)) (Spot.behindWord_bare hs.depth (w := "generated") (by decide) ▸ ?_) ?_
  · have hu := hs.behindName
    have hwords : Agrees κ (s.wants s.mode.behindName) (Reader.words ["always", "as"]) (Reader.words ["always", "as"])
        (At ⟨1, .expressions, .plain⟩ fun _ _ => True) := by
      refine (word "always" (hu.keeps _)).next fun _ _ _ => ?_
      rw [Spot.behindWord_bare hu.depth (by decide)]
      refine (word "as" (hu.behindName.keeps _)).next fun _ _ _ => ?_
      rw [Spot.behindWord_expression hu.behindName.depth (.inr rfl)]
      exact pure ⟨rfl, trivial⟩
    exact hwords.next fun _ _ _ => hgenerated
  · refine (word "as" (hs.keeps _)).next fun _ _ _ => ?_
    rw [Spot.behindWord_expression hs.depth (.inr rfl)]
    exact hgenerated

end Reader.Agrees
end FirstRow.Sql
