import FirstRow.Proofs.Sql.Expressions

/-!
# Keys of two texts

In a key a string is a name, so there a column may be named in single quotation marks too, if its name stands by itself.
Two terms of keys are alike if they say the same when strings in them are taken as names.
-/
namespace FirstRow.Sql

variable {κ : Licence} {s : Spot}

/-! ## Terms -/

/-- Two expressions name the same as keys, and are equally high. -/
structure Term.KeyAlike (names : List (List UInt8)) (t t' : Term) : Prop where
  shallow : t.expr.keyAsName.outline names = t'.expr.keyAsName.outline names
  deep : t.expr.deepAsName.outline names = t'.expr.deepAsName.outline names
  height : t.height = t'.height

/-- Two terms of keys are the same apart from how they are spelled. -/
structure KeyTerm.Alike (names : List (List UInt8)) (k k' : KeyTerm) : Prop where
  term : k.term.KeyAlike names k'.term
  nullsFirst : k.nullsFirst = k'.nullsFirst

variable {names : List (List UInt8)}

theorem Term.Alike.key {t t' : Term} (h : t.Alike names t') : t.KeyAlike names t' where
  shallow := by rw [← Expr.keyAsName_outline, h.expr, Expr.keyAsName_outline]
  deep := by rw [← Expr.deepAsName_outline, h.expr, Expr.deepAsName_outline]
  height := h.height

/-- The term that a name in a key is read as. -/
def Lexeme.keyLeaf (l : Lexeme) : Term :=
  .leaf (if Reader.isString l then .string (l.name?.getD []) else .name ⟨l.name?.getD [], l.mark?⟩)

/-- A name in a key that is no truth value has one outline as a key in all quotation marks. -/
theorem Lexeme.asName_keyLeaf {l : Lexeme} {n : List UInt8} (hn : l.keyName? = some n) (htruth : l.isTruth = false)
    (hamong : isAmong names n = true) :
    l.keyLeaf.expr.keyAsName.outline names = .name ⟨Text.Octet.fold n, some 0x60⟩ ∧
      l.keyLeaf.expr.deepAsName.outline names = .name ⟨Text.Octet.fold n, some 0x60⟩ := by
  have hname := name?_of_keyName? hn
  have houtline {mark : Option UInt8} (h : (Name.mk n mark).truth? = none) :
      (Expr.name ⟨n, mark⟩).outline names = .name ⟨Text.Octet.fold n, some 0x60⟩ := by
    rw [Expr.outline, Name.outline_eq_of_isAmong hamong h]
  cases hstring : Reader.isString l with
  | true =>
    simp only [keyLeaf, hstring, if_pos, hname, Option.getD_some, Term.leaf, Expr.keyAsName, Expr.deepAsName,
      Expr.stringAsName]
    exact ⟨houtline (Name.truth?_eq_none rfl), houtline (Name.truth?_eq_none rfl)⟩
  | false =>
    have hmark : (Name.mk n l.mark?).truth? = none := by
      refine truth?_of_operandName? ?_ htruth
      rw [← hn]
      unfold keyName?
      split
      · next htoken => simp [Reader.isString, htoken] at hstring
      · rfl
    simp only [keyLeaf, hstring, hname, Option.getD_some, Term.leaf, Expr.keyAsName, Expr.stringAsName]
    exact ⟨houtline hmark, houtline hmark⟩

/-! ## Reading -/

namespace Reader

variable {inner : Nested} {α β : Type}

/-- A name by itself. -/
def keyLeaf : Reader Term := phrase do return (← nameLexeme).keyLeaf

theorem run_sees_bind {p : Lexeme → Bool} {f : Bool → Reader α} (c : Cursor) :
    (sees p >>= f).run c = (f (c.ahead.head?.any p)).run c := rfl

theorem phrase_congr {r r' : Reader α} {c : Cursor} (h : r.run c = r'.run c) : (phrase r).run c = (phrase r').run c := by
  change ((r >>= fun a => do modify ({ · with height := c.height + 1 }); return a).run c) = _
  rw [StateT.run_bind, h]
  rfl

/-- What is read behind a name depends on what lies ahead then. -/
theorem nameLexeme_congr {c : Cursor} {l : Lexeme} {ls : List Lexeme} (hahead : c.ahead = l :: ls)
    {f g : Lexeme → Reader α} (h : ∀ c₁ : Cursor, c₁.ahead = ls → (f l).run c₁ = (g l).run c₁) :
    (nameLexeme >>= f).run c = (nameLexeme >>= g).run c := by
  rw [StateT.run_bind, StateT.run_bind]
  cases hrun : nameLexeme.run c with
  | error e => rfl
  | ok x =>
    obtain ⟨l', hl', hahead', -⟩ := take_ok hrun
    rw [hahead] at hahead'
    obtain ⟨rfl, hls⟩ := List.cons.inj hahead'
    obtain rfl : l = x.1 := by
      split at hl'
      · exact Option.some.inj hl'
      · cases hl'
    exact h x.2 hls.symm

/-- A name in a key that stands by itself is read as one. -/
theorem operand_run {c : Cursor} {l : Lexeme} {ls : List Lexeme} {n : List UInt8} (hahead : c.ahead = l :: ls)
    (hn : l.keyName? = some n) (hnext : ls.head?.all (fun x => !x.isSymbol "." && !x.isSymbol "(") = true) :
    (operand inner).run c = keyLeaf.run c := by
  have hname := Lexeme.name?_of_keyName? hn
  have hdot : ls.head?.any (·.isSymbol ".") = false := by
    cases h : ls.head? <;> simp_all
  have hopen : ls.head?.any (·.isSymbol "(") = false := by
    cases h : ls.head? <;> simp_all
  refine phrase_congr ?_
  rw [run_sees_bind]
  simp only [hahead, List.head?_cons, Option.any_some]
  cases hstring : isString l with
  | true =>
    refine nameLexeme_congr hahead fun c₁ hc₁ => ?_
    rw [seesSymbol, run_sees_bind, hc₁, hdot, Lexeme.keyLeaf, hstring]
    rfl
  | false =>
    have hoperand : l.operandName? = some n := by
      rw [← hn, Lexeme.keyName?]
      split
      · next htoken => simp [isString, htoken] at hstring
      · rfl
    have hword {w : String} (hw : w ∈ Lexeme.reserved ∨ w ∈ Lexeme.operandWords) : l.isWord w = false :=
      Lexeme.isWord_of_operandName? hoperand hw
    have hliteral : (literal? l).isSome = false := by rw [Lexeme.literal?_of_operandName? hoperand]; rfl
    have hvariable : decide (l.token = .variable) = false := by
      simpa using Lexeme.not_isVariable_of_name? hname
    have hsign : isSign l = false := by
      simp only [isSign, hword (w := "not") (.inl (by decide)), Lexeme.isSymbol_of_name? hname, Bool.or_self]
    simp only [Bool.false_eq_true, if_false, seesSymbol, seesWord, run_sees_bind, hahead, List.head?_cons,
      Option.any_some, hliteral, hvariable, Lexeme.isSymbol_of_name? hname, hsign,
      hword (w := "cast") (.inr (by decide)), hword (w := "exists") (.inl (by decide)),
      hword (w := "raise") (.inr (by decide)), hword (w := "case") (.inl (by decide))]
    refine nameLexeme_congr hahead fun c₁ hc₁ => ?_
    rw [seesSymbol, run_sees_bind, hc₁, hdot, if_neg Bool.false_ne_true, seesSymbol, run_sees_bind, hc₁, hopen,
      Lexeme.keyLeaf, hstring]
    rfl

/-- A name in a key that stands by itself is not continued. -/
theorem exprAt_run {c : Cursor} {l : Lexeme} {ls : List Lexeme} {n : List UInt8} (hahead : c.ahead = l :: ls)
    (hn : l.keyName? = some n)
    (hnext : ls.head?.all (fun x => !x.isSymbol "." && !x.isSymbol "(" && (level? x).isNone) = true)
    (least : Nat) (short : Bool) : (exprAt inner least short).run c = keyLeaf.run c := by
  have hrun : (operand inner).run c = keyLeaf.run c := by
    refine operand_run hahead hn ?_
    cases h : ls.head? <;> simp_all
  rw [exprAt, StateT.run_bind, hrun]
  cases hleaf : keyLeaf.run c with
  | error e => rfl
  | ok x =>
    obtain ⟨t, c₁⟩ := x
    have hls : c₁.ahead = ls := by
      obtain ⟨c₂, hname, rfl⟩ := phrase_ok hleaf
      obtain ⟨l', c₃, htake, hpure⟩ := bind_ok hname
      obtain ⟨-, rfl⟩ := pure_ok hpure
      obtain ⟨_, -, hahead', -⟩ := take_ok htake
      rw [hahead] at hahead'
      exact (List.cons.inj hahead').2.symm
    change (continuedFrom inner least short c₁.size t).run c₁ = .ok (t, c₁)
    cases c₁.size with
    | zero => rfl
    | succ k =>
      have hpeek (f : Option Lexeme → Reader Term) : (peek >>= f).run c₁ = (f c₁.ahead.head?).run c₁ := rfl
      rw [continuedFrom, hpeek, hls]
      cases ls with
      | nil => rfl
      | cons x xs =>
        have hlevel : level? x = none := by simp_all
        simp only [List.head?_cons, hlevel]
        rfl

end Reader

/-! ## Keys of two texts -/

namespace Spot

/-- A term of a key begins. -/
structure BeginsKey (s : Spot) : Prop where
  inner : 2 ≤ s.depth
  mode : s.mode = .key

/-- Behind a lexeme it does not matter that a term of a key could begin. -/
theorem BeginsKey.behind (hs : s.BeginsKey) (l : Lexeme) : s.behind l = (s.wants .operand).behind l := by
  have hzero : s.depth ≠ 0 := by have := hs.inner; omega
  have hone : s.depth ≠ 1 := by have := hs.inner; omega
  have hmode := hs.mode
  unfold Spot.behind
  split
  · simp [behindWord, behindInner, wants, hzero, hone, hmode, Mode.behindName, Mode.isOperand]
  · simp only [behindSymbol, wants, hzero, hone, hmode, Mode.isOperand]
    rfl
  · simp [behindOther, wants, hmode, Mode.behindName]

end Spot

/-- Where a name in a key does not stand by itself, the rest is respelled as an expression. -/
theorem Respells.operand (hs : s.BeginsKey) {ls ls' : List Lexeme} (h : Respells κ s ls ls') :
    Respells κ (s.wants .operand) ls ls' ∨ ∃ l l' rest rest' n, ls = l :: rest ∧ ls' = l' :: rest' ∧
      Respells κ (s.behind l) rest rest' ∧ l.keyName? = some n ∧ l'.keyName? = some n ∧
      isAmong κ.names n = true ∧ l.isTruth = false ∧ l'.isTruth = false ∧
      rest.head?.all (fun x => !x.isSymbol "." && !x.isSymbol "(" && (Reader.level? x).isNone) = true := by
  have hmode := hs.mode
  cases h with
  | nil => exact .inl .nil
  | cut _ hdepth => exact absurd hdepth (by have := hs.inner; omega)
  | @cons _ l l' ls ls' hpermits hpair htypes hrest hinner =>
    have hother (hpair : Pair κ (s.wants .operand) l l' ls.head?) : Respells κ (s.wants .operand) (l :: ls) (l' :: ls') := by
      refine .cons ?_ hpair (fun h => by cases h) (hs.behind l ▸ hrest) hinner
      simp only [Spot.permits, hmode] at hpermits ⊢
      exact hpermits
    cases hpair with
    | same hsame hexact => exact .inl (hother (.same hsame fun h => by cases h))
    | name h => simp [hmode, Mode.isName] at h
    | operand n _ hn hn' hwhy _ =>
      refine .inl (hother (.operand n rfl hn hn' ?_ fun h => by cases h))
      exact hwhy.imp_left fun h => .inr (h.resolve_left (by simp [hmode]))
    | key n _ hn hn' hamong htruth htruth' hnext =>
      exact .inr ⟨l, l', ls, ls', n, rfl, rfl, hrest, hn, hn', hamong, htruth, htruth', hnext⟩

namespace Reader.Agrees

theorem keyExpr {inner : Nested} (hinner : inner.Agrees κ) (hs : s.BeginsKey) (least : Nat) (short : Bool) :
    Agrees κ s (Reader.exprAt inner least short) (Reader.exprAt inner least short) (At s.shut (Term.KeyAlike κ.names)) := by
  intro c c' t c₁ hc hrun
  rcases hc.ahead.operand hs with h | ⟨l, l', ls, ls', n, hahead, hahead', hrest, hn, hn', hamong, htruth, htruth', hnext⟩
  · have hcursor : Cursor.Alike κ (s.wants .operand) c c' := { hc with ahead := h }
    obtain ⟨t', c₁', s₁, hrun', hc₁, hs₁, ht⟩ :=
      exprAt hinner (Spot.begins_operand hs.inner) least short c c' t c₁ hcursor hrun
    exact ⟨t', c₁', s₁, hrun', hc₁, hs₁, ht.key⟩
  · have hends (h : s.depth = 1) : False := by have := hs.inner; omega
    have hname := Lexeme.name?_of_keyName? hn
    have hname' := Lexeme.name?_of_keyName? hn'
    have hbehind : s.behind l = s.shut := by
      rw [Spot.behind_of_name? (by rw [hname]; rfl) (.inl (by simp [hs.mode])), hs.mode]
      rfl
    rw [hbehind] at hrest
    have hnext' : ls'.head?.all (fun x => !x.isSymbol "." && !x.isSymbol "(" && (level? x).isNone) = true := by
      cases hrest with
      | nil => rfl
      | cut => rfl
      | cons _ hpair =>
        have hsame := hpair.toSame rfl rfl
        simpa only [List.head?_cons, Option.all_some, hsame.isSymbol, hsame.level?] using hnext
    rw [exprAt_run hahead hn hnext] at hrun
    rw [exprAt_run hahead' hn' hnext']
    obtain ⟨c₂, hleaf, rfl⟩ := phrase_ok hrun
    obtain ⟨l₀, c₃, htake, hpure⟩ := bind_ok hleaf
    obtain ⟨rfl, rfl⟩ := pure_ok hpure
    obtain ⟨l₁, l₁', hahead₁, hahead₁', -, -, hl, hread⟩ := take_alike (β := Lexeme) hc htake fun _ h => (hends h).elim
    obtain ⟨rfl, -⟩ := List.cons.inj (hahead.symm.trans hahead₁)
    obtain rfl : l' = l₁' := by
      rw [hahead'] at hahead₁'
      exact Option.some.inj hahead₁'
    obtain rfl : l = l₀ := by simpa [hname] using hl
    obtain ⟨c₁', hrun', hc₁⟩ := hread (fun l => if l.name?.isSome then some l else none) l' (by rw [hname']; rfl)
    rw [hbehind] at hc₁
    refine ⟨l'.keyLeaf, { c₁' with height := c'.height + 1 }, s.shut, ?_, { hc₁ with height := by rw [hc.height] }, rfl, ?_⟩
    · refine run_phrase ?_
      rw [StateT.run_bind, nameLexeme, Reader.takeThat, hrun']
      rfl
    · obtain ⟨hshallow, hdeep⟩ := Lexeme.asName_keyLeaf hn htruth hamong
      obtain ⟨hshallow', hdeep'⟩ := Lexeme.asName_keyLeaf hn' htruth' hamong
      exact ⟨hshallow.trans hshallow'.symm, hdeep.trans hdeep'.symm, rfl⟩

theorem keyTerms (hs : s.BeginsKey) (hdepth : s.depth = 2) (hlisting : s.listing = .keys) :
    Agrees κ s (Reader.keyTerms nested) (Reader.keyTerms nested) (At s.shut (List.Forall₂ (KeyTerm.Alike κ.names))) := by
  have hterm : Agrees κ s (Reader.keyTerm nested) (Reader.keyTerm nested) (At s.shut (KeyTerm.Alike κ.names)) :=
    (keyTermOf (keyExpr (Nested.ofDepth_agrees κ _) hs 1 false)).mono fun _ _ _ h => ⟨h.1, h.2.1, h.2.2⟩
  have hcomma : s.shut.behindSymbol "," = s := by
    have hmode : s.wants .key = s := Spot.wants_of_mode hs.mode
    simpa [Spot.behindSymbol, Spot.shut, Spot.wants, hdepth, hlisting, Listing.mode] using hmode
  refine separated (ne_one hs.inner) hterm ?_
  rw [hcomma]
  exact hterm

/-! ## Names -/

/-- The name of a table or of a column, which is the same in all quotation marks. -/
theorem exactName (hs : s.mode.isName = true) :
    Agrees κ s Reader.name Reader.name (At (s.wants s.mode.behindName) (· = ·)) := by
  have hne : s.mode ≠ .plain := fun h => by simp [h, Mode.isName] at hs
  refine take (fun l l' next n hpair _ hl => ?_) fun _ _ l hend => name?_of_endsItem hend
  exact ⟨n, hpair.name?_eq hs ▸ hl, Spot.behind_of_name? (by rw [hl]; rfl) (.inl hne), rfl⟩

theorem collation (hs : 2 ≤ s.depth) : Agrees κ s.shut Reader.collation Reader.collation (At s.shut (· = ·)) := by
  have hname : Agrees κ s.shut
      (do
        Reader.word "collate"
        Reader.plainName)
      (do
        Reader.word "collate"
        Reader.plainName) (At s.shut (· = ·)) := by
    refine (word "collate" rfl).next fun _ _ _ => ?_
    rw [Spot.behindWord_collate (s := s.shut) hs]
    exact collationName
  exact optional (seesWord "collate" rfl) hname (fun _ _ _ h => ⟨h.1, congrArg some h.2⟩) ⟨rfl, rfl⟩

theorem columnNames (hmode : s.mode = .listed) (hdepth : s.depth = 2) (hlisting : s.listing = .names) :
    Agrees κ s Reader.columnNames Reader.columnNames (At s.shut (· = ·)) := by
  have hinner : 2 ≤ s.depth := Nat.le_of_eq hdepth.symm
  have hname : Agrees κ s
      (do
        let n ← Reader.name
        Functor.discard Reader.collation
        Functor.discard Reader.order
        return n)
      (do
        let n ← Reader.name
        Functor.discard Reader.collation
        Functor.discard Reader.order
        return n) (At s.shut (· = ·)) := by
    have hfirst := exactName (κ := κ) (s := s) (by rw [hmode]; rfl)
    rw [hmode] at hfirst
    refine hfirst.next fun n n' hn => ?_
    refine next (t := s.shut) (A := fun _ _ => True) (discard (collation hinner) fun _ _ _ h => ⟨h.1, trivial⟩) ?_
    refine fun _ _ _ => next (t := s.shut) (A := fun _ _ => True) (discard (order rfl) fun _ _ _ h => ⟨h.1, trivial⟩) ?_
    exact fun _ _ _ => pure ⟨rfl, hn⟩
  have hcomma : s.shut.behindSymbol "," = s := by
    have hmode : s.wants .listed = s := Spot.wants_of_mode hmode
    simpa [Spot.behindSymbol, Spot.shut, Spot.wants, hdepth, hlisting, Listing.mode] using hmode
  have hnames := separated (t := s.shut) (ne_one hinner) hname (by rw [hcomma]; exact hname)
  refine hnames.mono fun s₁ ns ns' h => ⟨h.1, ?_⟩
  rw [← List.forall₂_eq_eq_eq]
  exact h.2

end Reader.Agrees

end FirstRow.Sql
