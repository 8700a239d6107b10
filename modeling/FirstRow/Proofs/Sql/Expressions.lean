import FirstRow.Proofs.Sql.Terms
import FirstRow.Proofs.Sql.TypeText

/-!
# Expressions of two texts

An expression within parentheses is read of a respelling as it is read of the text: one lemma for each kind of operand
and of operator, and an induction on how deep expressions are nested. A definition holds no queries and no windows, so
the readers of these never come to their end.
-/
namespace FirstRow.Sql

open Text.Octet (fold)

variable {κ : Licence} {s : Spot}

/-- Expressions are read alike wherever they begin within parentheses. -/
def Nested.Agrees (κ : Licence) (inner : Nested) : Prop :=
  ∀ ⦃s : Spot⦄ (level : Nat) (short : Bool), s.Begins →
    Reader.Agrees κ s (inner.expr level short) (inner.expr level short) (Reader.At s.shut (Term.Alike κ.names))

namespace Reader.Agrees

open Term (Alike)

variable {inner : Nested} {α β γ δ : Type}

/-! ## Lists -/

theorem whole (hinner : inner.Agrees κ) (hs : s.Begins) :
    Agrees κ s inner.whole inner.whole (At s.shut (Alike κ.names)) :=
  hinner 1 false hs

theorem list (hinner : inner.Agrees κ) (hs : s.Begins) (hdepth : 3 ≤ s.depth) :
    Agrees κ s inner.list inner.list (At s.shut (List.Forall₂ (Alike κ.names))) := by
  refine separated (by simp only [Spot.depth_shut]; omega) (whole hinner hs) ?_
  rw [Spot.behindSymbol_comma (s := s.shut) hdepth, Spot.wants_shut]
  exact whole hinner (Spot.begins_operand hs.inner)

theorem listOrNothing (hinner : inner.Agrees κ) (hs : s.Begins) (hdepth : 3 ≤ s.depth) :
    Agrees κ s (Reader.listOrNothing inner) (Reader.listOrNothing inner) (Near s (List.Forall₂ (Alike κ.names))) := by
  refine bind (Q := Near s fun ts ts' => List.Forall₂ (Alike κ.names) (ts.getD []) (ts'.getD [])) ?_ ?_
  · refine optional (seesBeginsExpr hs) (list hinner hs hdepth) ?_ ⟨⟨s.mode, rfl⟩, .nil⟩
    rintro _ ts ts' ⟨rfl, hts⟩
    exact ⟨⟨.plain, rfl⟩, hts⟩
  · rintro _ ts ts' ⟨hnear, hts⟩
    exact pure ⟨hnear, hts⟩

/-! ## Operands -/

/-- Within parentheses no item ends. -/
theorem ne_one (hs : 2 ≤ s.depth) : s.depth ≠ 1 := by
  omega

/-- Behind a literal an expression is complete. -/
theorem behind_of_literal? (hs : s.Begins) {l : Lexeme} {e : Expr} (h : literal? l = some e) : s.behind l = s.shut := by
  unfold literal? at h
  unfold Spot.behind
  split at h
  case h_5 k w htoken =>
    simp only [htoken]
    split at h
    · next hnull =>
      rw [beq_iff_eq] at hnull
      rw [hnull, Spot.behindWord_closer hs.inner (by decide)]
    · split at h
      · next hdate =>
        have hwords : ∀ w ∈ ["current_date", "current_time", "current_timestamp"],
            Lexeme.reserved.contains w = false ∧ (w == "by" || matchers.contains w) = false := by decide
        obtain ⟨hreserved, hoperator⟩ := hwords k (List.contains_iff_mem.mp hdate)
        rw [Spot.behindWord_free hreserved hoperator, hs.behindName]
        rfl
      · cases h
  case h_6 => cases h
  all_goals simp_all [hs.behindOther]

/-- A literal is the same in both texts wherever no name can stand in its place. -/
theorem literalOf
    (hsame : ∀ l l' next, Pair κ s l l' next → (literal? l).isSome = true → l.Same l')
    (hbehind : ∀ l e, literal? l = some e → s.behind l = s.shut) :
    Agrees κ s Reader.literal Reader.literal (At s.shut (Alike κ.names)) := by
  refine map (Q := At s.shut fun e e' => e.outline κ.names = e'.outline κ.names)
    (take (fun l l' next e hpair _ hl => ?_) fun _ _ l => literal?_of_endsItem) fun s₁ e e' h => ⟨h.1, .leaf h.2⟩
  have houtline := (hsame l l' next hpair (by rw [hl]; rfl)).literal? κ.names
  rw [hl] at houtline
  cases he' : literal? l' with
  | none => simp [he'] at houtline
  | some e' =>
    rw [he'] at houtline
    exact ⟨e', rfl, hbehind l e hl, Option.some.inj houtline⟩

theorem literal (hs : s.Begins) : Agrees κ s Reader.literal Reader.literal (At s.shut (Alike κ.names)) := by
  refine literalOf (fun l l' next hpair hl => ?_) fun l e => behind_of_literal? hs
  refine hpair.same_of_operandName? hs ?_
  by_contra hname
  obtain ⟨n, hn⟩ := Option.ne_none_iff_exists'.mp hname
  rw [Lexeme.literal?_of_operandName? hn] at hl
  cases hl

theorem parameter (hs : s.Begins) : Agrees κ s Reader.parameter Reader.parameter (At s.shut (Alike κ.names)) := by
  have hnumbered (text : List UInt8) : Agrees κ s.shut (Reader.parameter.numbered text) (Reader.parameter.numbered text)
      (At s.shut (Alike κ.names)) := by
    refine get fun c c' hc => ?_
    rw [hc.parameters]
    refine bind (modify (P := At s.shut fun _ _ => True) (fun _ _ hc => { hc with parameters := rfl }) ⟨rfl, trivial⟩) ?_
    rintro _ _ _ ⟨rfl, -⟩
    refine bind (raiseIf (P := At s.shut fun _ _ => True) rfl ⟨rfl, trivial⟩) ?_
    rintro _ _ _ ⟨rfl, -⟩
    exact pure ⟨rfl, .leaf rfl⟩
  have htake : Agrees κ s (Reader.takeThat (·.token = .variable)) (Reader.takeThat (·.token = .variable))
      (At s.shut fun l l' => l.text = l'.text) := by
    refine takeThat (fun l l' next hpair _ hl => ?_) fun _ h => absurd h (ne_one hs.inner)
    have hvariable : l.token = .variable := by simpa using hl
    have hsame : l.Same l' := hpair.same_of_name? (by simp [Lexeme.name?, hvariable])
    refine ⟨by simpa [← hsame.isVariable] using hvariable, ?_, hsame.parameter hvariable⟩
    simp only [Spot.behind, hvariable, hs.behindOther]
  refine htake.next fun l l' htext => ?_
  rw [htext]
  generalize l'.text = text
  split
  · split
    · refine bind (raise (P := At s.shut fun _ _ => True) ⟨rfl, trivial⟩) ?_
      rintro _ _ _ ⟨rfl, -⟩
      exact pure ⟨rfl, .leaf rfl⟩
    · exact hnumbered _
  · exact hnumbered _

/-- The values of a vector behind the first one. -/
theorem rest (hinner : inner.Agrees κ) (hs : 3 ≤ s.depth) (hmode : s.mode = .plain) (n : Nat) :
    Agrees κ s (Reader.parentheses.rest inner n) (Reader.parentheses.rest inner n)
      (At s (List.Forall₂ (Alike κ.names))) := by
  have hne (h : s.depth = 1) : False := by omega
  have hshut : s.shut = s := Spot.shut_of_plain hmode
  induction n with
  | zero => exact stop
  | succ n ih =>
    refine get fun c c' hc => ?_
    rw [hc.height]
    refine (symbol "," fun _ h => (hne h).elim).next fun _ _ _ => ?_
    rw [Spot.behindSymbol_comma hs]
    refine (whole hinner (Spot.begins_operand (by omega))).next fun t t' ht => ?_
    rw [Spot.shut_wants, hshut]
    refine choose (seesSymbol "," fun _ h => (hne h).elim) ?_ (pure ⟨rfl, .cons ht .nil⟩)
    refine bind (setHeight (P := At s fun _ _ => True) ⟨rfl, trivial⟩) ?_
    rintro _ _ _ ⟨rfl, -⟩
    exact ih.next fun ts ts' hts => pure ⟨rfl, .cons ht hts⟩

theorem parentheses (hinner : inner.Agrees κ) (hs : s.Begins) :
    Agrees κ s (Reader.parentheses inner) (Reader.parentheses inner) (At s.shut (Alike κ.names)) := by
  refine (openOperand hs).next fun _ _ _ => ?_
  have hbegins : (s.deeper .opening).Begins := Spot.begins_deeper (by have := hs.inner; omega) (.inr rfl)
  refine pass (unseenQuery hbegins.inner rfl) ?_
  refine (whole hinner hbegins).next fun t t' ht => ?_
  have hne : (s.deeper .opening).shut.depth = 1 → False := fun h => ne_one hbegins.inner h
  refine choose (seesSymbol "," fun _ h => (hne h).elim) ?_ ?_
  · refine get fun c c' hc => ?_
    rw [hc.size]
    refine (rest hinner (Nat.succ_le_succ hs.inner) rfl _).next fun ts ts' hts => ?_
    exact (close hs.inner _ .plain).next fun _ _ _ => pure ⟨rfl, .vectorOf (.cons ht hts)⟩
  · exact (close hs.inner _ .plain).next fun _ _ _ => pure ⟨rfl, ht⟩

theorem castTerm (hinner : inner.Agrees κ) (hs : s.Begins) :
    Agrees κ s (Reader.castTerm inner) (Reader.castTerm inner) (At s.shut (Alike κ.names)) := by
  have hcast : s.behindWord "cast" = s.shut := by
    rw [Spot.behindWord_free (by decide) (by decide), hs.behindName]
    rfl
  refine (word "cast" (hs.keeps (by decide))).next fun _ _ _ => ?_
  rw [hcast]
  have hbegins : (s.deeper .operand).Begins := Spot.begins_deeper (Nat.le_of_succ_le hs.inner) (.inl rfl)
  refine (openPlain hs.inner).next fun _ _ _ => ?_
  refine (whole hinner hbegins).next fun t t' ht => ?_
  refine (word "as" (Mode.keeps_of_reserved _ (by decide))).next fun _ _ _ => ?_
  rw [Spot.behindWord_as (s := (s.deeper .operand).shut) hbegins.inner]
  have htype := type (κ := κ) (s := (s.deeper .operand).wants .type) rfl (Nat.le_of_succ_le hbegins.inner)
    fun (h : (s.deeper .operand).depth = 1) => absurd h (ne_one hbegins.inner)
  refine htype.bind fun s₁ u u' h => ?_
  obtain ⟨⟨m, -, rfl⟩, htype⟩ := h
  rw [if_neg (by have := hbegins.inner; simp only [Spot.depth_wants]; omega)] at htype
  refine (close hs.inner .operand m).next fun _ _ _ => pure ⟨rfl, ?_, ?_, rfl⟩
  · simp only [Expr.outline, ht.expr, htype]
  · simp only [ht.height]

/-! ### Distinctions of cases -/

/-- A word that is never a name, in front of an expression. -/
theorem wholeBehind (hinner : inner.Agrees κ) (hs : 2 ≤ s.depth) {w : String} (hw : w ∈ Spot.openers) :
    Agrees κ s (do Reader.word w; inner.whole) (do Reader.word w; inner.whole) (At s.shut (Alike κ.names)) := by
  have hreserved : ∀ w ∈ Spot.openers, Lexeme.reserved.contains w = true := by decide
  refine (opener hs w hw (s.mode.keeps_of_reserved (hreserved w hw))).next fun _ _ _ => ?_
  exact whole hinner (Spot.begins_operand hs)

theorem branch (hinner : inner.Agrees κ) (hs : 2 ≤ s.depth) :
    Agrees κ s (Reader.branch inner) (Reader.branch inner) (At s.shut (List.Forall₂ (Alike κ.names))) := by
  refine (opener hs "when" (by decide) (s.mode.keeps_of_reserved (by decide))).next fun _ _ _ => ?_
  refine (whole hinner (Spot.begins_operand hs)).next fun a a' ha => ?_
  rw [Spot.shut_wants]
  refine (opener (s := s.shut) hs "then" (by decide) (Mode.keeps_of_reserved _ (by decide))).next fun _ _ _ => ?_
  refine (whole hinner (Spot.begins_operand hs)).next fun b b' hb => pure ⟨rfl, .cons ha (.cons hb .nil)⟩

theorem caseTerm (hinner : inner.Agrees κ) (hs : s.Begins) :
    Agrees κ s (Reader.caseTerm inner) (Reader.caseTerm inner) (At s.shut (Alike κ.names)) := by
  have hkeeps (m : Mode) {w : String} (hw : Lexeme.reserved.contains w = true) : m.keeps w = true :=
    m.keeps_of_reserved hw
  refine (opener hs.inner "case" (by decide) (hkeeps _ (by decide))).next fun _ _ _ => ?_
  -- the subject, which may be left out
  have hsubject : Agrees κ (s.wants .operand) (Reader.optional (!·.isWord "when") inner.whole)
      (Reader.optional (!·.isWord "when") inner.whole)
      (Near s fun t t' => List.Forall₂ (Alike κ.names) t.toList t'.toList) := by
    refine optional ?_ (whole hinner (Spot.begins_operand hs.inner)) ?_ ⟨⟨_, rfl⟩, .nil⟩
    · exact sees (fun l l' next hpair _ => by rw [hpair.isWord (hkeeps _ (by decide))]) fun _ h => absurd h (ne_one hs.inner)
    · rintro _ t t' ⟨rfl, ht⟩
      exact ⟨⟨.plain, rfl⟩, .cons ht .nil⟩
  refine nearby hsubject fun m subject subject' hsubjects => ?_
  refine (branch (s := s.wants m) hinner hs.inner).phrase.next fun first first' hfirst => ?_
  have hmany := many (κ := κ) (s := s.shut) (seesWord "when" (hkeeps _ (by decide))) (branch hinner hs.inner)
  refine hmany.next fun others others' hothers => ?_
  have hotherwise : Agrees κ s.shut
      (Reader.optional (·.isWord "else") do
        Reader.word "else"
        inner.whole)
      (Reader.optional (·.isWord "else") do
        Reader.word "else"
        inner.whole) (At s.shut fun t t' => List.Forall₂ (Alike κ.names) t.toList t'.toList) := by
    refine optional (seesWord "else" (hkeeps _ (by decide))) (wholeBehind (s := s.shut) hinner hs.inner (by decide)) ?_
      ⟨rfl, .nil⟩
    rintro _ t t' ⟨rfl, ht⟩
    exact ⟨rfl, .cons ht .nil⟩
  refine hotherwise.next fun otherwise otherwise' hotherwises => ?_
  refine (word "end" rfl).next fun _ _ _ => ?_
  rw [Spot.behindWord_free (by decide) (by decide)]
  have hbranches : List.Forall₂ (Alike κ.names) (first ++ others.flatten ++ otherwise.toList)
      (first' ++ others'.flatten ++ otherwise'.toList) :=
    List.rel_append (List.rel_append hfirst (List.rel_flatten hothers)) hotherwises
  have houtline := Term.exprs_outline (List.rel_append hsubjects hbranches)
  refine (node ?_ hsubjects).next fun t t' ht => ?_
  · simp only [Expr.outline, Expr.outlineAll_eq_map]
    exact congrArg _ houtline
  · rw [Term.tallest_congr hbranches]
    exact holding (ht.withForeign _ _) _

/-! ### Calls -/

/-- A word that is not reserved, where nothing depends on it. -/
theorem behindWord_plain (hs : s.mode = .plain) {w : String} (hreserved : Lexeme.reserved.contains w = false)
    (hoperator : (w == "by" || matchers.contains w) = false) : s.behindWord w = s := by
  rw [Spot.behindWord_free hreserved hoperator, hs]
  exact Spot.shut_of_plain hs

theorem order (hs : s.mode = .plain) : Agrees κ s Reader.order Reader.order (At s (· = ·)) := by
  have hkeeps : ["asc", "desc"].all s.mode.keeps = true := by rw [hs]; rfl
  have hwords : Agrees κ s (Reader.optional (·.isOneOf ["asc", "desc"]) (Reader.oneOf ["asc", "desc"]))
      (Reader.optional (·.isOneOf ["asc", "desc"]) (Reader.oneOf ["asc", "desc"]))
      (At s fun l l' => l.any (·.isWord "desc") = l'.any (·.isWord "desc")) := by
    refine optional (seesOneOf _ hkeeps) (oneOf _ hkeeps) ?_ ⟨rfl, rfl⟩
    rintro _ l l' ⟨hsame, w, hw, -, rfl⟩
    have hfree : ∀ w ∈ ["asc", "desc"], Lexeme.reserved.contains w = false ∧
      (w == "by" || matchers.contains w) = false := by decide
    exact ⟨behindWord_plain hs (hfree w hw).1 (hfree w hw).2, hsame.isWord "desc"⟩
  exact hwords.next fun l l' h => pure ⟨rfl, h⟩

/-- A term of a key is read as its expression is. -/
theorem keyTermOf {R : Term → Term → Prop} (hwhole : Agrees κ s inner.whole inner.whole (At s.shut R)) :
    Agrees κ s (Reader.keyTerm inner) (Reader.keyTerm inner)
      (At s.shut fun k k' => R k.term k'.term ∧ k.nullsFirst = k'.nullsFirst) := by
  refine hwhole.next fun t t' ht => ?_
  refine next (t := s.shut) (A := fun _ _ => True) (discard (order rfl) fun _ _ _ h => ⟨h.1, trivial⟩) fun _ _ _ => ?_
  have hnulls : Agrees κ s.shut
      (Reader.optional (·.isWord "nulls") do
        Reader.word "nulls"
        Reader.oneOf ["first", "last"])
      (Reader.optional (·.isWord "nulls") do
        Reader.word "nulls"
        Reader.oneOf ["first", "last"])
      (At s.shut fun l l' => l.map (·.isWord "first") = l'.map (·.isWord "first")) := by
    refine optional (Q := At s.shut Lexeme.Same) (seesWord "nulls" rfl) ?_ ?_ ⟨rfl, rfl⟩
    · refine (word "nulls" rfl).next fun _ _ _ => ?_
      rw [behindWord_plain rfl (by decide) (by decide)]
      refine (oneOf ["first", "last"] rfl).mono ?_
      rintro _ l l' ⟨hsame, w, hw, -, rfl⟩
      have hfree : ∀ w ∈ ["first", "last"], Lexeme.reserved.contains w = false ∧
        (w == "by" || matchers.contains w) = false := by decide
      exact ⟨behindWord_plain rfl (hfree w hw).1 (hfree w hw).2, hsame⟩
    · rintro _ l l' ⟨hs₁, hsame⟩
      exact ⟨hs₁, congrArg some (hsame.isWord "first")⟩
  exact hnulls.next fun l l' hl => pure ⟨rfl, ht, hl⟩

/-- What is in the parentheses of a call. -/
theorem arguments (hinner : inner.Agrees κ) (hs : 3 ≤ s.depth) (hmode : s.mode = .operand) :
    Agrees κ s (Reader.arguments inner) (Reader.arguments inner) (Near s fun x y =>
      x.1 = y.1 ∧ List.Forall₂ (Alike κ.names) x.2.1 y.2.1 ∧ List.Forall₂ (Alike κ.names) x.2.2 y.2.2) := by
  have hinside : 2 ≤ s.depth := Nat.le_of_succ_le hs
  have hbegins : s.Begins := ⟨hinside, .inl hmode⟩
  have hoperand : s.wants .operand = s := Spot.wants_of_mode hmode
  refine takesElse (takesSymbol "*" fun _ h => absurd h (ne_one hinside)) ?_ ?_
  · rw [Spot.behindSymbol_operator hinside (by decide)]
    exact pure ⟨⟨_, rfl⟩, rfl, .nil, .nil⟩
  have hkeeps : ["distinct", "all"].all s.mode.keeps = true := by rw [hmode]; decide
  have hdistinct : Agrees κ s (Reader.optional (·.isOneOf ["distinct", "all"]) (Reader.oneOf ["distinct", "all"]))
      (Reader.optional (·.isOneOf ["distinct", "all"]) (Reader.oneOf ["distinct", "all"]))
      (At s fun l l' => l.any (·.isWord "distinct") = l'.any (·.isWord "distinct")) := by
    refine optional (seesOneOf _ hkeeps) (oneOf _ hkeeps) ?_ ⟨rfl, rfl⟩
    rintro _ l l' ⟨hsame, w, hw, -, rfl⟩
    have hopeners : ∀ w ∈ ["distinct", "all"], w ∈ Spot.openers := by decide
    exact ⟨(Spot.behindWord_opener hinside (hopeners w hw)).trans hoperand, hsame.isWord "distinct"⟩
  refine hdistinct.next fun l l' hl => nearby (listOrNothing hinner hbegins hs) fun m args args' hargs => ?_
  refine takesElse (takesWord "order" (Mode.keeps_of_reserved _ (by decide))) ?_ (pure ⟨⟨m, rfl⟩, hl, .nil, hargs⟩)
  rw [Spot.behindWord_closer (s := s.wants m) hinside (by decide), Spot.shut_wants]
  refine (word "by" rfl).next fun _ _ _ => ?_
  rw [Spot.behindWord_operator (s := s.shut) hinside rfl (by decide), Spot.wants_shut, hoperand]
  have hterm {u : Spot} (hu : u.Begins) : Agrees κ u (Reader.keyTerm inner) (Reader.keyTerm inner)
      (At u.shut fun k k' => k.term.Alike κ.names k'.term) :=
    (keyTermOf (whole hinner hu)).mono fun _ _ _ h => ⟨h.1, h.2.1⟩
  have hterms : Agrees κ s (Reader.keyTerms inner) (Reader.keyTerms inner)
      (At s.shut (List.Forall₂ fun k k' => k.term.Alike κ.names k'.term)) := by
    refine separated (ne_one hinside) (hterm hbegins) ?_
    rw [Spot.behindSymbol_comma (s := s.shut) hs]
    exact hterm (Spot.begins_operand hinside)
  refine hterms.next fun ks ks' hks => pure ⟨⟨.plain, rfl⟩, hl, ?_, hargs⟩
  exact List.forall₂_map_left_iff.mpr (List.forall₂_map_right_iff.mpr hks)

/-- A call behind the name of the function. -/
theorem callTerm (hinner : inner.Agrees κ) (hs : 2 ≤ s.depth) (hmode : s.mode = .plain) {written written' n n' : List UInt8}
    (hn : fold n = fold n') :
    Agrees κ s (Reader.callTerm inner written n) (Reader.callTerm inner written' n') (At s (Alike κ.names)) := by
  have hshut : s.shut = s := Spot.shut_of_plain hmode
  have hargs : Agrees κ s (Reader.parenthesized (Reader.arguments inner)) (Reader.parenthesized (Reader.arguments inner))
      (At s fun x y => x.1 = y.1 ∧ List.Forall₂ (Alike κ.names) x.2.1 y.2.1 ∧
        List.Forall₂ (Alike κ.names) x.2.2 y.2.2) := by
    have hopen : s.behindSymbol "(" = s.deeper .operand := by rw [Spot.behindSymbol_open hs, hmode]; rfl
    have hinside := arguments (s := s.deeper .operand) hinner (Nat.succ_le_succ hs) rfl
    rw [← hopen] at hinside
    refine parenthesized hinside ?_ ?_ <;> rw [hopen]
    · rintro _ x y ⟨⟨m, rfl⟩, -⟩
      exact ne_one (Nat.le_succ_of_le hs)
    · rintro _ x y ⟨⟨m, rfl⟩, hxy⟩
      exact ⟨(Spot.behindSymbol_close_wants hs _ m).trans hshut, hxy⟩
  refine hargs.next fun ⟨distinct, order, args⟩ ⟨distinct', order', args'⟩ ⟨hdistinct, horder, hargs⟩ => ?_
  obtain rfl : distinct = distinct' := hdistinct
  refine pass (unseenOneOf hs (by rw [hmode]; decide) fun l hl => ?_) ?_
  · have hquery := (Spot.permits_inner hs hl).1
    rw [Lexeme.isOneOf_eq_any] at hquery ⊢
    simp_all [Spot.queryWords]
  have hform : (CallForm.mk n false false).outline = (CallForm.mk n' false false).outline := by
    simp only [CallForm.outline, hn]
  rw [pure_bind, pure_bind]
  refine (callOf hform hargs).next fun t t' ht => ?_
  have horder : List.Forall₂ (Alike κ.names) (if args.isEmpty then [] else order) (if args'.isEmpty then [] else order') := by
    have hempty : args.isEmpty = args'.isEmpty := by cases hargs <;> rfl
    rw [hempty]
    split
    · exact .nil
    · exact horder
  refine pure ⟨rfl, ?_, ht.height, ht.inside⟩
  simp only [Expr.outline, hform, Expr.outlineAll_eq_map, Term.exprs_outline horder, Term.exprs_outline hargs]

/-- A name behind a dot. -/
theorem pathName (hs : 2 ≤ s.depth) :
    Agrees κ (s.wants .path) Reader.name Reader.name (At s.shut fun n n' => fold n = fold n') := by
  refine take (fun l l' next n hpair _ hl => ?_) fun _ h => absurd h (ne_one hs)
  have hfold := hpair.fold_name?
  rw [hl] at hfold
  obtain ⟨n', hn', hfold⟩ := Option.map_eq_some_iff.mp hfold.symm
  refine ⟨n', hn', ?_, hfold.symm⟩
  exact Spot.behind_of_name? (by rw [hl]; rfl) (.inl (by simp))

/-- The name of a column behind other names, whatever quotation marks they stand in. -/
theorem pathTerm (hs : 2 ≤ s.depth) {n n' : List UInt8} (hn : fold n = fold n') :
    Agrees κ s (Reader.pathTerm n) (Reader.pathTerm n') (At s.shut (Alike κ.names)) := by
  have hdot {u : Spot} (hu : 2 ≤ u.depth) : Agrees κ u (Reader.symbol ".") (Reader.symbol ".") (At (u.wants .path) fun _ _ => True) := by
    rw [← Spot.behindSymbol_dot hu]
    exact symbol "." fun _ h => absurd h (ne_one hu)
  refine (hdot hs).next fun _ _ _ => (pathName hs).next fun m m' hm => ?_
  refine takesElse (takesSymbol "." fun _ h => absurd h (ne_one hs)) ?_ (pure ⟨rfl, ?_, rfl, rfl⟩)
  · rw [Spot.behindSymbol_dot (s := s.shut) hs]
    refine (pathName hs).next fun k k' hk => pure ⟨rfl, ?_, rfl, rfl⟩
    simp [Expr.outline, hn, hm, hk]
  · simp [Expr.outline, hn, hm]


/-- A string, which is the same in both texts. -/
theorem stringTerm (hs : s.Begins) :
    AgreesWhere κ s (·.head?.any isString = true) Reader.stringTerm Reader.stringTerm (At s.shut (Alike κ.names)) := by
  refine .takeThatThenSees (fun _ h => absurd h (ne_one hs.inner)) fun l l' ls hstring hpair hl => ?_
  have hbehind : s.behind l = s.shut := by
    rw [Spot.behind_of_name? hl (.inl hs.ne_plain), hs.behindName]
    rfl
  rw [hbehind]
  refine ⟨hpair.name?_isSome ▸ hl, seesSymbol "." fun _ h => absurd h (ne_one hs.inner), ?_⟩
  obtain ⟨n, hn⟩ := Option.isSome_iff_exists.mp hl
  have hsame : l.name? = l'.name? := by
    rcases hpair.same_or_operandName? hs with hsame | ⟨m, hm, hm', -⟩
    · have hstring : isString l = true := hstring
      rcases hsame.token_cases with htoken | ⟨k, w, w', htoken, -⟩ | ⟨w, w', htoken, -⟩
      · simp only [Lexeme.name?, htoken]
      · simp [isString, htoken] at hstring
      · simp [isString, htoken] at hstring
    · rw [Lexeme.name?_of_operandName? hm, Lexeme.name?_of_operandName? hm']
  rw [← hsame]
  split
  · exact pathTerm (s := s.shut) hs.inner rfl
  · exact pure ⟨rfl, .leaf rfl⟩

/-- The name of a column in an expression, whatever quotation marks it stands in. -/
theorem outline_name_eq {l l' : Lexeme} {next : Option Lexeme} (hs : s.Begins) (h : Pair κ s l l' next)
    (hnext : next.any (·.isSymbol ".") = false) :
    (Expr.name ⟨l.name?.getD [], l.mark?⟩).outline κ.names = (Expr.name ⟨l'.name?.getD [], l'.mark?⟩).outline κ.names := by
  simp only [Expr.outline, Expr.name.injEq]
  rcases h.same_or_operandName? hs with hsame | ⟨n, hn, hn', hwhy⟩
  · have hname := hsame.name?
    rcases hsame.token_cases with htoken | ⟨k, w, w', htoken, htoken', -⟩ | ⟨w, w', htoken, htoken', -⟩
    · simp only [Lexeme.name?, Lexeme.mark?, htoken]
    all_goals
      simp only [Lexeme.mark?, htoken, htoken']
      refine Name.outline_eq_of_fold ?_
      cases hl : l.name? <;> cases hl' : l'.name? <;> simp_all
  · obtain ⟨hamong, htruth, htruth'⟩ := hwhy.resolve_left (by simp [hs.ne_path, hnext])
    rw [Lexeme.name?_of_operandName? hn, Lexeme.name?_of_operandName? hn', Option.getD_some,
      Name.outline_eq_of_isAmong hamong (Lexeme.truth?_of_operandName? hn htruth),
      Name.outline_eq_of_isAmong hamong (Lexeme.truth?_of_operandName? hn' htruth')]

/-- The name of a column, or the call of a function. -/
theorem nameTerm (hinner : inner.Agrees κ) (hs : s.Begins) :
    Agrees κ s (Reader.nameTerm inner) (Reader.nameTerm inner) (At s.shut (Alike κ.names)) := by
  have hne : s.shut.depth ≠ 1 := ne_one hs.inner
  refine .of_where (.takeThatThenSees (P := fun _ => True) (fun _ h => absurd h (ne_one hs.inner)) fun l l' ls _ hpair hl => ?_)
  have hbehind : s.behind l = s.shut := by
    rw [Spot.behind_of_name? hl (.inl hs.ne_plain), hs.behindName]
    rfl
  rw [hbehind]
  refine ⟨hpair.name?_isSome ▸ hl, seesSymbol "." fun _ h => absurd h hne, ?_⟩
  have hfold : fold (l.name?.getD []) = fold (l'.name?.getD []) := by
    have hname := hpair.fold_name?
    cases hn : l.name? <;> cases hn' : l'.name? <;> simp_all
  cases hnext : ls.head?.any (·.isSymbol ".") with
  | true => exact pathTerm (s := s.shut) hs.inner hfold
  | false =>
    refine choose (seesSymbol "(" fun _ h => absurd h hne) (callTerm (s := s.shut) hinner hs.inner rfl hfold) ?_
    exact pure ⟨rfl, .leaf (outline_name_eq hs hpair hnext)⟩

/-- An operand with a sign or a negation in front of it. -/
theorem signedTerm (hinner : inner.Agrees κ) (hs : s.Begins) :
    Agrees κ s (Reader.signedTerm inner) (Reader.signedTerm inner) (At s.shut (Alike κ.names)) := by
  have hne : s.depth = 1 → False := fun h => ne_one hs.inner h
  have hsymbol {t : String} (ht : t ∉ ["(", ")", ",", "."]) : s.behindSymbol t = s.wants .operand :=
    Spot.behindSymbol_operator hs.inner ht
  have hnot : s.behindWord "not" = s.wants .operand := by rw [Spot.behindWord_not hs.inner, hs.isOperand]; rfl
  have hexpr (level : Nat) : Agrees κ (s.wants .operand) (inner.expr level false) (inner.expr level false)
      (At s.shut (Alike κ.names)) := hinner level false (Spot.begins_operand hs.inner)
  refine takesElse (takesWord "not" (hs.keeps (by decide))) (hnot ▸ ?_) ?_
  · exact (hexpr 3).next fun t t' ht => operation (.cons ht .nil)
  refine takesElse (takesSymbol "-" fun _ h => (hne h).elim) (hsymbol (t := "-") (by decide) ▸ ?_) ?_
  · exact (hexpr _).next fun t t' ht => node (by simp [Expr.outline, ht.expr]) (.cons ht .nil)
  refine takesElse (takesSymbol "+" fun _ h => (hne h).elim) (hsymbol (t := "+") (by decide) ▸ ?_) ?_
  · exact (hexpr _).next fun t t' ht => node (by simp [Expr.outline, ht.expr]) (.cons ht .nil)
  refine (symbol "~" fun _ h => (hne h).elim).next fun _ _ _ => ?_
  rw [hsymbol (by decide)]
  exact (hexpr _).next fun t t' ht => operation (.cons ht .nil)

theorem operand (hinner : inner.Agrees κ) (hs : s.Begins) :
    Agrees κ s (Reader.operand inner) (Reader.operand inner) (At s.shut (Alike κ.names)) := by
  have hne : s.depth = 1 → False := fun h => ne_one hs.inner h
  have hsees {p : Lexeme → Bool} (hsame : ∀ l l', l.Same l' → p l = p l')
      (hname : ∀ l n, l.operandName? = some n → p l = false) :
      Agrees κ s (Reader.sees p) (Reader.sees p) (At s (· = ·)) := by
    refine sees (fun l l' next hpair _ => ?_) fun _ h => (hne h).elim
    rcases hpair.same_or_operandName? hs with h | ⟨n, hn, hn', -⟩
    · exact hsame l l' h
    · rw [hname l n hn, hname l' n hn']
  refine phrase <| chooseWhere ?_ (stringTerm hs) <| .of <| choose ?_ (literal hs) <| choose ?_ (parameter hs) <|
    choose (seesSymbol "(" fun _ h => (hne h).elim) (parentheses hinner hs) <| choose ?_ (signedTerm hinner hs) <|
    choose (seesWord "cast" (hs.keeps (by decide))) (castTerm hinner hs) <| pass ?_ <| pass ?_ <|
    choose (seesWord "case" (hs.keeps (by decide))) (caseTerm hinner hs) (nameTerm hinner hs)
  · exact hsees (fun l l' h => h.isString) fun l n => Lexeme.isString_of_operandName?
  · refine hsees (fun l l' h => h.literal?_isSome) fun l n hn => ?_
    rw [Lexeme.literal?_of_operandName? hn]
    rfl
  · refine hsees (fun l l' h => by rw [decide_eq_decide]; exact h.isVariable) fun l n hn => ?_
    simpa using Lexeme.not_isVariable_of_name? (Lexeme.name?_of_operandName? hn)
  · refine sees (fun l l' next hpair _ => ?_) fun _ h => (hne h).elim
    rw [isSign, isSign, hpair.isWord (hs.keeps (by decide)), hpair.isSymbol, hpair.isSymbol, hpair.isSymbol]
  · refine unseen (fun l l' next hpair hl => ?_) fun _ h => (hne h).elim
    have hnone : l.isWord "exists" = false := by
      have hquery := (Spot.permits_inner hs.inner hl).1
      rw [Lexeme.isOneOf_eq_any] at hquery
      simp_all [Spot.queryWords]
    have heq := hpair.isWord (w := "exists") (hs.keeps (by decide))
    exact ⟨hnone, heq ▸ hnone⟩
  · refine unseen (fun l l' next hpair hl => ?_) fun _ h => (hne h).elim
    have hnone := (Spot.permits_inner hs.inner hl).2.1 hs.isOperand hs.ne_path
    have heq := hpair.isWord (w := "raise") (hs.keeps (by decide))
    exact ⟨hnone, heq ▸ hnone⟩

/-! ## Operators -/

/-- A pattern behind the word that compares with it. -/
theorem matched (hinner : inner.Agrees κ) (hs : s.Begins) (negated : Bool) {l l' : Lexeme} (hl : l.Same l') {a a' : Term}
    (ha : a.Alike κ.names a') :
    Agrees κ s (Reader.matched inner negated l a) (Reader.matched inner negated l' a') (At s.shut (Alike κ.names)) := by
  have hform : (CallForm.mk l.text false false).outline = (CallForm.mk l'.text false false).outline := by
    simp only [CallForm.outline, hl.text]
  have hcall {bs bs' : List Term} (hbs : List.Forall₂ (Alike κ.names) bs bs') :
      Agrees κ s.shut (do Reader.negatedIf negated (← Reader.callOf ⟨l.text, false, false⟩ l.text bs))
        (do Reader.negatedIf negated (← Reader.callOf ⟨l'.text, false, false⟩ l'.text bs')) (At s.shut (Alike κ.names)) :=
    (callOf hform hbs).next fun t t' ht => negatedIf negated ht
  refine (hinner 5 false hs).next fun pattern pattern' hpattern => ?_
  refine takesElse (takesWord "escape" (Mode.keeps_of_reserved _ (by decide))) ?_ ?_
  · rw [Spot.behindWord_opener (s := s.shut) hs.inner (by decide), Spot.wants_shut]
    refine (hinner 5 false (Spot.begins_operand hs.inner)).next fun e e' he => ?_
    exact hcall (.cons hpattern (.cons ha (.cons he .nil)))
  · exact hcall (.cons hpattern (.cons ha .nil))

/-- The bounds behind `BETWEEN`. -/
theorem bounds (hinner : inner.Agrees κ) (hs : s.Begins) (negated : Bool) {a a' : Term} (ha : a.Alike κ.names a') :
    Agrees κ s (Reader.bounds inner negated a) (Reader.bounds inner negated a') (At s.shut (Alike κ.names)) := by
  refine (hinner 1 true hs).next fun low low' hlow => ?_
  refine (opener (s := s.shut) hs.inner "and" (by decide) (Mode.keeps_of_reserved _ (by decide))).next fun _ _ _ => ?_
  refine (hinner 5 false (Spot.begins_operand hs.inner)).next fun high high' hhigh => ?_
  refine (node ?_ (.cons ha .nil)).next fun t t' ht => negatedIf negated (ht.withForeign _ _)
  simp only [Expr.outline, ha.expr, hlow.expr, hhigh.expr]

/-- The members behind `IN`. -/
theorem members (hinner : inner.Agrees κ) (hs : 2 ≤ s.depth) (negated : Bool) {a a' : Term} (ha : a.Alike κ.names a') :
    Agrees κ (s.wants .members) (Reader.members inner negated a) (Reader.members inner negated a')
      (At s.shut (Alike κ.names)) := by
  have hne (u : Spot) (hu : u.depth = s.depth) : u.depth = 1 → False := by omega
  have hopen : (s.wants .members).behindSymbol "(" = s.deeper .opening := Spot.behindSymbol_open (s := s.wants .members) hs
  refine takesElse (takesSymbol "(" fun _ h => (hne _ rfl h).elim) ?_ ?_
  · rw [hopen]
    have hbegins : (s.deeper .opening).Begins := Spot.begins_deeper (Nat.le_of_succ_le hs) (.inr rfl)
    refine pass (unseenQuery hbegins.inner rfl) ?_
    refine nearby (listOrNothing hinner hbegins (Nat.succ_le_succ hs)) fun m ts ts' hts => ?_
    exact (close hs .opening m).next fun _ _ _ => memberOfList negated ha hts
  · have hfirst : Agrees κ (s.wants .members) Reader.name Reader.name (At s.shut fun _ _ => True) := by
      refine take (fun l l' next n hpair _ hl => ?_) fun _ h => (hne _ rfl h).elim
      have hsome := hpair.name?_isSome
      rw [hl] at hsome
      obtain ⟨n', hn'⟩ := Option.isSome_iff_exists.mp hsome.symm
      exact ⟨n', hn', Spot.behind_of_name? (by rw [hl]; rfl) (.inl (by simp)), trivial⟩
    have hsecond : Agrees κ s.shut
        (Reader.optional (·.isSymbol ".") do
          Reader.symbol "."
          Reader.name)
        (Reader.optional (·.isSymbol ".") do
          Reader.symbol "."
          Reader.name) (At s.shut fun _ _ => True) := by
      refine optional (seesSymbol "." fun _ h => (hne s.shut rfl h).elim) (Q := At s.shut fun _ _ => True) ?_ (fun _ _ _ h => h)
        ⟨rfl, trivial⟩
      refine (symbol "." fun _ h => (hne s.shut rfl h).elim).next fun _ _ _ => ?_
      rw [Spot.behindSymbol_dot (s := s.shut) hs]
      exact (pathName hs).mono fun _ _ _ h => ⟨h.1, trivial⟩
    have hargs : Agrees κ s.shut
        (Reader.optional (·.isSymbol "(") (Reader.parenthesized (Reader.listOrNothing inner)))
        (Reader.optional (·.isSymbol "(") (Reader.parenthesized (Reader.listOrNothing inner)))
        (At s.shut fun _ _ => True) := by
      have hbegins : (s.deeper .operand).Begins := Spot.begins_deeper (Nat.le_of_succ_le hs) (.inl rfl)
      refine optional (seesSymbol "(" fun _ h => (hne s.shut rfl h).elim) (Q := At s.shut fun _ _ => True) ?_ (fun _ _ _ h => h)
        ⟨rfl, trivial⟩
      refine (openPlain hs).next fun _ _ _ => ?_
      refine nearby (listOrNothing hinner hbegins (Nat.succ_le_succ hs)) fun m ts ts' _ => ?_
      exact (close hs .operand m).next fun _ _ _ => pure ⟨rfl, trivial⟩
    refine hfirst.next fun _ _ _ => hsecond.next fun _ _ _ => hargs.next fun _ _ _ => ?_
    exact memberOfQuery negated ha 1

/-- A word that may be left out and behind which nothing changes. -/
theorem takesStaying {w : String} (hkeeps : s.mode.keeps w = true) (hs : s.behindWord w = s) :
    Agrees κ s (Reader.takesWord w) (Reader.takesWord w) (At s (· = ·)) :=
  (takesWord w hkeeps).mono fun s₁ x y h => ⟨by rw [h.2, hs, ite_self], h.1⟩

/-- What follows a word that compares and that may be negated. -/
theorem compared (hinner : inner.Agrees κ) (hs : 2 ≤ s.depth) {a a' : Term} (ha : a.Alike κ.names a') :
    Agrees κ s.shut (Reader.compared inner a) (Reader.compared inner a') (At s.shut (Alike κ.names)) := by
  have hword {l : Lexeme} {w : String} (h : l.isWord w = true) (v : String) : l.isWord v = (w == v) := by
    unfold Lexeme.isWord at *
    split at h
    · rw [beq_iff_eq] at h
      rw [h]
    · cases h
  refine get fun c c' hc => ?_
  rw [hc.height]
  refine (takesStaying rfl (Spot.behindWord_not (s := s.shut) hs)).next fun negated negated' hnegated => ?_
  obtain rfl : negated = negated' := hnegated
  refine takesElse (takesWord "null" rfl) ?_ ?_
  · rw [Spot.behindWord_closer (s := s.shut) hs (by decide)]
    exact node (by simp [Expr.outline, ha.expr]) (.cons ha .nil)
  refine (oneOf (["between", "in"] ++ matchers) rfl).bind fun s₁ l l' ⟨hl, w, hmem, hw, hs₁⟩ => ?_
  refine bind (Q := At s₁ fun _ _ => True) (setHeight ⟨rfl, trivial⟩) ?_
  rintro _ _ _ ⟨rfl, -⟩
  rw [← hl.isWord "between", ← hl.isWord "in", hword hw, hword hw]
  subst hs₁
  have hoperand : (s.wants .operand).Begins := Spot.begins_operand hs
  rcases List.mem_append.mp hmem with hmem | hmem
  · rcases List.mem_cons.mp hmem with rfl | hmem
    · rw [Spot.behindWord_opener (s := s.shut) hs (by decide)]
      exact bounds hinner hoperand negated ha
    · obtain rfl := List.mem_singleton.mp hmem
      rw [Spot.behindWord_in (s := s.shut) hs]
      exact members hinner hs negated ha
  · have hne : ∀ w ∈ matchers, (w == "between") = false ∧ (w == "in") = false := by decide
    rw [Spot.behindWord_operator (s := s.shut) hs rfl (List.mem_cons_of_mem _ hmem), (hne w hmem).1, (hne w hmem).2]
    exact matched hinner hoperand negated hl ha

/-- What follows `IS`. -/
theorem identified (hinner : inner.Agrees κ) (hs : 2 ≤ s.depth) {a a' : Term} (ha : a.Alike κ.names a') :
    Agrees κ s.shut (Reader.identified inner a) (Reader.identified inner a') (At s.shut (Alike κ.names)) := by
  have hoperand : (s.wants .operand).Begins := Spot.begins_operand hs
  have hwhole (b : Bool) : Agrees κ (s.wants .operand) (do Reader.sameTerm b a (← inner.expr 5 false))
      (do Reader.sameTerm b a' (← inner.expr 5 false)) (At s.shut (Alike κ.names)) :=
    (hinner 5 false hoperand).next fun t t' ht => sameTerm b ha ht
  refine (opener (s := s.shut) hs "is" (by decide) (Mode.keeps_of_reserved _ (by decide))).next fun _ _ _ => ?_
  refine (takesStaying (hoperand.keeps (by decide)) (Spot.behindWord_not (s := s.wants .operand) hs)).next fun x x' hx => ?_
  obtain rfl : x = x' := hx
  have hdistinct : Agrees κ (s.wants .operand) (Reader.takesWord "distinct") (Reader.takesWord "distinct")
      (At (s.wants .operand) (· = ·)) :=
    takesStaying (hoperand.keeps (by decide)) (Spot.behindWord_opener (s := s.wants .operand) hs (by decide))
  refine hdistinct.next fun y y' hy => ?_
  obtain rfl : y = y' := hy
  cases y with
  | true => 
    refine (opener (s := s.wants .operand) hs "from" (by decide) (hoperand.keeps (by decide))).next fun _ _ _ => ?_
    exact hwhole _
  | false => exact hwhole _

/-- What follows a symbol between operands of a level. -/
theorem combined (hinner : inner.Agrees κ) (hs : 2 ≤ s.depth) {t : String} {level : Nat}
    (ht : symbolLevel? t = some level) {a a' : Term} (ha : a.Alike κ.names a') :
    AgreesWhere κ s.shut (·.head?.any (·.isSymbol t) = true) (Reader.combined inner level a)
      (Reader.combined inner level a') (At s.shut (Alike κ.names)) := by
  have hoperator : t ∉ ["(", ")", ",", "."] := by
    have hnone : ∀ t ∈ ["(", ")", ",", "."], symbolLevel? t = none := by decide
    intro hmem
    rw [hnone t hmem] at ht
    cases ht
  refine .bind (Q := At (s.wants .operand) Lexeme.Same) (.takeThat (fun _ h => absurd h (ne_one hs)) fun l l' ls hl hpair hp => ?_) ?_
  · have hsame := hpair.toSame rfl rfl
    refine ⟨hsame.level? ▸ hp, ?_, hsame⟩
    rw [Spot.behind_of_isSymbol hl]
    exact Spot.behindSymbol_operator (s := s.shut) hs hoperator
  · rintro _ l l' ⟨rfl, hl⟩
    refine (hinner (level + 1) false (Spot.begins_operand hs)).next fun b b' hb => ?_
    rw [← hl.isSymbol, ← hl.isSymbol]
    split
    · exact node (by simp [Expr.outline, ha.expr, hb.expr]) (.cons ha (.cons hb .nil))
    · split
      · exact callOf (by simp only [CallForm.outline, hl.text]) (.cons ha (.cons hb .nil))
      · exact operation (.cons ha (.cons hb .nil))

/-- The name of a collation, which is the same in both texts. -/
theorem collationName : Agrees κ (s.wants .collation) Reader.plainName Reader.plainName (At s.shut (· = ·)) := by
  refine take (fun l l' next n hpair _ hl => ?_) fun _ _ l hend => by simp [Lexeme.plainName?, name?_of_endsItem hend]
  have hsame := hpair.toSame rfl rfl
  have hname : l.name? = l'.name? := by
    cases hpair with
    | same _ hexact => exact (hexact rfl).resolve_right fun h => by simp at h
    | name hmode => cases hmode
    | operand _ hmode => cases hmode
    | key _ hmode => cases hmode
  have hplain : l.plainName? = l'.plainName? := by rw [Lexeme.plainName?, Lexeme.plainName?, hsame.isOneOf, hname]
  have hsome : l.name?.isSome = true := by
    unfold Lexeme.plainName? at hl
    split at hl
    · cases hl
    · rw [hl]
      rfl
  exact ⟨n, hplain ▸ hl, Spot.behind_of_name? hsome (.inl (by simp)), rfl⟩

/-- What continues an expression depends on the word that comes next, or on the level of a symbol. -/
theorem continued_eq (inner : Nested) (l : Lexeme) (level : Nat) (a : Term) :
    Reader.continued inner l level a =
      if l.isWord "or" then do
        Reader.word "or"
        Reader.operation [a, ← inner.expr 2 false]
      else if l.isWord "and" then do
        Reader.word "and"
        Reader.both a (← inner.expr 3 false)
      else if l.isWord "collate" then do
        Reader.word "collate"
        return ⟨.collate a.expr (← Reader.plainName), 1, 0, a.foreign⟩
      else if l.isWord "isnull" then do
        Reader.word "isnull"
        Reader.node (.isNull false a.expr) [a]
      else if l.isWord "notnull" then do
        Reader.word "notnull"
        Reader.node (.isNull true a.expr) [a]
      else if l.isWord "is" then Reader.identified inner a
      else match l.token with
        | .keyword _ _ => Reader.compared inner a
        | _ => Reader.combined inner level a := by
  unfold Reader.continued Lexeme.isWord
  split <;> simp_all

/-- An expression with the operator behind it. -/
theorem continued (hinner : inner.Agrees κ) (hs : 2 ≤ s.depth) {l l' : Lexeme} (hl : l.Same l') {level : Nat}
    (hlevel : level? l = some level) {a a' : Term} (ha : a.Alike κ.names a') :
    AgreesWhere κ s.shut (·.head? = some l) (Reader.continued inner l level a) (Reader.continued inner l' level a')
      (At s.shut (Alike κ.names)) := by
  have hexpr (level : Nat) := hinner level false (Spot.begins_operand hs)
  have hkeeps {w : String} (hw : Lexeme.reserved.contains w = true) : s.shut.mode.keeps w = true :=
    Mode.keeps_of_reserved _ hw
  have hnull (w : String) (negated : Bool) (hw : w ∈ ["null", "isnull", "notnull", "exists", "order"]) :
      Agrees κ s.shut (do Reader.word w; Reader.node (.isNull negated a.expr) [a])
        (do Reader.word w; Reader.node (.isNull negated a'.expr) [a']) (At s.shut (Alike κ.names)) := by
    refine (word w (hkeeps ?_)).next fun _ _ _ => ?_
    · revert w
      decide
    · rw [Spot.behindWord_closer (s := s.shut) hs hw]
      exact node (by simp [Expr.outline, ha.expr]) (.cons ha .nil)
  rw [continued_eq, continued_eq]
  simp only [← hl.isWord]
  split
  · refine .of <| (opener (s := s.shut) hs "or" (by decide) (hkeeps (by decide))).next fun _ _ _ => ?_
    exact (hexpr 2).next fun t t' ht => operation (.cons ha (.cons ht .nil))
  split
  · refine .of <| (opener (s := s.shut) hs "and" (by decide) (hkeeps (by decide))).next fun _ _ _ => ?_
    exact (hexpr 3).next fun t t' ht => both ha ht
  split
  · refine .of <| (word "collate" (hkeeps (by decide))).next fun _ _ _ => ?_
    rw [Spot.behindWord_collate (s := s.shut) hs]
    refine (collationName (s := s)).next fun n n' hn => pure ⟨rfl, ?_, rfl, rfl⟩
    rw [hn, Expr.outline, Expr.outline, ha.expr]
  split
  · exact .of (hnull "isnull" false (by decide))
  split
  · exact .of (hnull "notnull" true (by decide))
  split
  · exact .of (identified hinner hs ha)
  have hother (hl' : l'.token = l.token) : AgreesWhere κ s.shut (·.head? = some l)
      (match l.token with | .keyword _ _ => Reader.compared inner a | _ => Reader.combined inner level a)
      (match l'.token with | .keyword _ _ => Reader.compared inner a' | _ => Reader.combined inner level a')
      (At s.shut (Alike κ.names)) := by
    rw [hl']
    unfold level? at hlevel
    split at hlevel
    · next t htoken =>
      rw [htoken]
      refine (combined hinner hs hlevel ha).mono fun ls hls => ?_
      simp [hls, Lexeme.isSymbol, htoken]
    · next w spelling htoken =>
      rw [htoken]
      exact .of (compared hinner hs ha)
    · cases hlevel
  rcases hl.token_cases with htoken | ⟨k, w, w', htoken, htoken', -⟩ | ⟨w, w', htoken, -⟩
  · exact hother htoken
  · rw [htoken, htoken']
    exact .of (compared hinner hs ha)
  · simp [level?, htoken] at hlevel

/-- What continues an expression. -/
theorem continuedFrom (hinner : inner.Agrees κ) (hs : 2 ≤ s.depth) (least : Nat) (short : Bool) (n : Nat) {a a' : Term}
    (ha : a.Alike κ.names a') :
    Agrees κ s.shut (Reader.continuedFrom inner least short n a) (Reader.continuedFrom inner least short n a')
      (At s.shut (Alike κ.names)) := by
  induction n generalizing a a' with
  | zero => exact pure ⟨rfl, ha⟩
  | succ n ih =>
    refine peek (ne_one hs) (pure ⟨rfl, ha⟩) fun l l' next hpair => ?_
    have hl := hpair.toSame rfl rfl
    simp only [← hl.level?, ← hl.isWord]
    split
    · exact .of (pure ⟨rfl, ha⟩)
    · next level hlevel =>
      split
      · exact .of (pure ⟨rfl, ha⟩)
      · refine .bind (continued hinner hs hl hlevel ha).joined fun s₁ b b' h => ?_
        obtain ⟨rfl, hb⟩ := h
        exact ih hb

theorem exprAt (hinner : inner.Agrees κ) (hs : s.Begins) (least : Nat) (short : Bool) :
    Agrees κ s (Reader.exprAt inner least short) (Reader.exprAt inner least short) (At s.shut (Alike κ.names)) := by
  refine (operand hinner hs).next fun a a' ha => get fun c c' hc => ?_
  rw [hc.size]
  exact continuedFrom hinner hs.inner least short _ ha

end Reader.Agrees

/-! ## Nesting -/

/-- Expressions are read alike, however deep they are nested. -/
theorem Nested.ofDepth_agrees (κ : Licence) (n : Nat) : (Nested.ofDepth n).Agrees κ := by
  induction n with
  | zero => exact fun _ _ _ _ => .stop
  | succ n ih => exact fun s level short hs => .exprAt ih hs level short

theorem nested_agrees (κ : Licence) : nested.Agrees κ := Nested.ofDepth_agrees κ _

end FirstRow.Sql
