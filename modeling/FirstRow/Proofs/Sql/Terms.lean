import FirstRow.Proofs.Sql.Parallel

/-!
# Terms of two texts

Two terms are alike if their expressions have one outline and their trees are equally high. What is made of terms that
are alike is alike again.
-/
namespace FirstRow.Sql

variable {κ : Licence} {s : Spot}

/-- Two terms are the same apart from how they are spelled. Foreign databases, which only views and triggers look at, do
not count. -/
structure Term.Alike (names : List (List UInt8)) (t t' : Term) : Prop where
  expr : t.expr.outline names = t'.expr.outline names
  height : t.height = t'.height
  inside : t.inside = t'.inside

namespace Term

variable {names : List (List UInt8)} {ts ts' : List Term}

theorem Alike.leaf {e e' : Expr} (h : e.outline names = e'.outline names) : (leaf e).Alike names (leaf e') :=
  ⟨h, rfl, rfl⟩

/-- The foreign database does not count. -/
theorem Alike.withForeign {t t' : Term} (h : t.Alike names t') (x x' : Option (List UInt8)) :
    Alike names { t with foreign := x } { t' with foreign := x' } :=
  ⟨h.expr, h.height, h.inside⟩

theorem exprs_outline (h : List.Forall₂ (Alike names) ts ts') :
    (exprs ts).map (Expr.outline names) = (exprs ts').map (Expr.outline names) := by
  induction h with
  | nil => rfl
  | cons hab _ ih => simpa [exprs, hab.expr] using ih

theorem tallest_congr (h : List.Forall₂ (Alike names) ts ts') : tallest ts = tallest ts' := by
  unfold tallest
  generalize 0 = n
  induction h generalizing n with
  | nil => rfl
  | cons hab _ ih => rw [List.foldl_cons, List.foldl_cons, hab.height, ih]

theorem Alike.vectorOf (h : List.Forall₂ (Alike names) ts ts') :
    (Reader.vectorOf ts).Alike names (Reader.vectorOf ts') :=
  ⟨by simp [Reader.vectorOf, Expr.outline, exprs_outline h], rfl, tallest_congr h⟩

end Term

namespace Reader.Agrees

open Term (Alike)

theorem checkHeight (h : Nat) :
    Agrees κ s (Reader.checkHeight h) (Reader.checkHeight h) (At s fun _ _ => True) := by
  unfold Reader.checkHeight
  split
  · exact raise ⟨rfl, trivial⟩
  · exact pure ⟨rfl, trivial⟩

theorem node {e e' : Expr} {ts ts' : List Term} (he : e.outline κ.names = e'.outline κ.names)
    (hts : List.Forall₂ (Alike κ.names) ts ts') :
    Agrees κ s (Reader.node e ts) (Reader.node e' ts') (At s (Alike κ.names)) := by
  unfold Reader.node
  rw [Term.tallest_congr hts]
  exact (checkHeight _).next fun _ _ _ => pure ⟨rfl, he, rfl, rfl⟩

theorem holding {t t' : Term} (ht : t.Alike κ.names t') (h : Nat) :
    Agrees κ s (Reader.holding t h) (Reader.holding t' h) (At s (Alike κ.names)) := by
  refine get fun c c' hc => ?_
  rw [← hc.fault, ← ht.height]
  split
  · exact pure ⟨rfl, ht⟩
  · exact (checkHeight _).next fun _ _ _ => pure ⟨rfl, ht.expr, rfl, ht.inside⟩

theorem operation {ts ts' : List Term} (hts : List.Forall₂ (Alike κ.names) ts ts') :
    Agrees κ s (Reader.operation ts) (Reader.operation ts') (At s (Alike κ.names)) :=
  node (by simp [Expr.outline, Term.exprs_outline hts]) hts

theorem negatedIf {t t' : Term} (negated : Bool) (ht : t.Alike κ.names t') :
    Agrees κ s (Reader.negatedIf negated t) (Reader.negatedIf negated t') (At s (Alike κ.names)) := by
  cases negated with
  | true => exact operation (.cons ht .nil)
  | false => exact pure ⟨rfl, ht⟩

/-- What does not depend on the spelling is the same of terms that are alike. -/
theorem expr_congr {α : Type} {f : Expr → α} (hf : ∀ e, f (e.outline κ.names) = f e) {t t' : Term}
    (h : t.Alike κ.names t') : f t.expr = f t'.expr := by
  rw [← hf t.expr, h.expr, hf]

theorem both {a a' b b' : Term} (ha : a.Alike κ.names a') (hb : b.Alike κ.names b') :
    Agrees κ s (Reader.both a b) (Reader.both a' b') (At s (Alike κ.names)) := by
  unfold Reader.both
  rw [expr_congr Expr.isFalse_outline ha, expr_congr Expr.isFalse_outline hb]
  split
  · exact pure ⟨rfl, .leaf rfl⟩
  · exact operation (.cons ha (.cons hb .nil))

theorem sameTerm {a a' b b' : Term} (negated : Bool) (ha : a.Alike κ.names a') (hb : b.Alike κ.names b') :
    Agrees κ s (Reader.sameTerm negated a b) (Reader.sameTerm negated a' b') (At s (Alike κ.names)) := by
  have hnull : b.expr = .null ↔ b'.expr = .null := by
    have houtline (e : Expr) : e.outline κ.names = .null ↔ e = .null := by
      cases e <;> simp [Expr.outline]
    rw [← houtline, hb.expr, houtline]
  refine (node (by simp [Expr.outline, ha.expr, hb.expr]) (.cons ha (.cons hb .nil))).next fun t t' ht => ?_
  split
  · next h =>
    rw [hnull.mp h]
    exact pure ⟨rfl, by simp [Expr.outline, ha.expr], ht.height, ht.inside⟩
  · next h =>
    split
    · next h' => exact absurd (hnull.mpr h') h
    · exact pure ⟨rfl, ht⟩

theorem callOf {form form' : CallForm} {written written' : List UInt8} {ts ts' : List Term}
    (hform : form.outline = form'.outline) (hts : List.Forall₂ (Alike κ.names) ts ts') :
    Agrees κ s (Reader.callOf form written ts) (Reader.callOf form' written' ts') (At s (Alike κ.names)) := by
  have hcall : (Term.mk (.call form [] (Term.exprs ts)) 1 0 (Term.firstForeign ts)).Alike κ.names
      ⟨.call form' [] (Term.exprs ts'), 1, 0, Term.firstForeign ts'⟩ :=
    ⟨by simp [Expr.outline, hform, Term.exprs_outline hts], rfl, rfl⟩
  unfold Reader.callOf
  rw [hts.length_eq, Term.tallest_congr hts]
  split
  · exact bind (raise (P := At s fun _ _ => True) ⟨rfl, trivial⟩) fun _ _ _ ⟨hs, _⟩ => hs ▸ holding hcall _
  · exact holding hcall _

theorem memberOfQuery {a a' : Term} {foreign foreign' : Option (List UInt8)} (negated : Bool) (ha : a.Alike κ.names a')
    (h : Nat) :
    Agrees κ s (Reader.memberOfList.memberOfQuery negated a h foreign)
      (Reader.memberOfList.memberOfQuery negated a' h foreign') (At s (Alike κ.names)) := by
  refine (node (by simp [Expr.outline, ha.expr]) (.cons ha .nil)).next fun t t' ht => ?_
  exact (holding (ht.withForeign _ _) h).next fun u u' hu => negatedIf negated hu

/-- Members are at fault alike. -/
theorem memberFault_congr {ts ts' : List Term} (hts : List.Forall₂ (Alike κ.names) ts ts') (n : Nat) :
    (ts.findSome? (memberFault? n)).isSome = (ts'.findSome? (memberFault? n)).isSome := by
  have hfault {t t' : Term} (h : t.Alike κ.names t') : (memberFault? n t).isSome = (memberFault? n t').isSome :=
    expr_congr (f := fun e => (memberFault? n ⟨e, 0, 0, none⟩).isSome)
      (fun e => by cases e <;> simp [memberFault?, Expr.outline]) h
  induction hts with
  | nil => rfl
  | cons hab _ ih =>
    rw [List.findSome?_cons, List.findSome?_cons]
    have := hfault hab
    split <;> split <;> simp_all

theorem foldl_inside_congr {ts ts' : List Term} (hts : List.Forall₂ (Alike κ.names) ts ts') (n : Nat) :
    ts.foldl (fun h m => max h m.inside) n = ts'.foldl (fun h m => max h m.inside) n := by
  induction hts generalizing n with
  | nil => rfl
  | cons hab _ ih => rw [List.foldl_cons, List.foldl_cons, hab.inside, ih]

theorem memberOfSeveral {a a' : Term} {ts ts' : List Term} (negated : Bool) (ha : a.Alike κ.names a')
    (hts : List.Forall₂ (Alike κ.names) ts ts') :
    Agrees κ s (Reader.memberOfList.memberOfSeveral negated ts a) (Reader.memberOfList.memberOfSeveral negated ts' a')
      (At s (Alike κ.names)) := by
  refine (node (by simp [Expr.outline, ha.expr, Term.exprs_outline hts]) (.cons ha .nil)).next fun t t' ht => ?_
  have hheld {u u' : Term} (hu : u.Alike κ.names u') (h : Nat) :
      Agrees κ s (do Reader.negatedIf negated (← Reader.holding u h)) (do Reader.negatedIf negated (← Reader.holding u' h))
        (At s (Alike κ.names)) := (holding hu h).next fun _ _ hv => negatedIf negated hv
  have hwidth := expr_congr Expr.width_outline ha
  have hvector := expr_congr Expr.isVector_outline ha
  split
  · next es he =>
    split
    · next es' he' =>
      have hlength : es.length = es'.length := by simpa [he, he', Expr.width] using hwidth
      have hfault := memberFault_congr hts es.length
      simp only [← hlength]
      split
      · next hm =>
        obtain ⟨m', hm'⟩ := Option.isSome_iff_exists.mp (hfault.symm.trans (by rw [hm]; rfl))
        rw [hm']
        exact (raise (P := At s fun _ _ => True) ⟨rfl, trivial⟩).next fun _ _ _ => negatedIf negated ht
      · next hm =>
        have hm' : ts'.findSome? (memberFault? es.length) = none := by
          rw [hm] at hfault
          simpa using hfault.symm
        have hmember : (Expr.member a.expr).outline κ.names = (Expr.member a'.expr).outline κ.names := by
          simp [Expr.outline, ha.expr]
        rw [hm', foldl_inside_congr hts]
        refine hheld ?_ _
        exact ⟨hmember, ht.height, ht.inside⟩
    · next hother =>
      rw [he] at hvector
      cases he' : a'.expr <;> simp_all [Expr.isVector]
  · next hother =>
    split
    · next es' he' =>
      rw [he'] at hvector
      cases he : a.expr <;> simp_all [Expr.isVector]
    · rw [Term.tallest_congr hts]
      exact hheld (ht.withForeign _ _) _

theorem memberOfList {a a' : Term} {ts ts' : List Term} (negated : Bool) (ha : a.Alike κ.names a')
    (hts : List.Forall₂ (Alike κ.names) ts ts') :
    Agrees κ s (Reader.memberOfList negated a ts) (Reader.memberOfList negated a' ts') (At s (Alike κ.names)) := by
  cases hts with
  | nil => exact pure ⟨rfl, .leaf rfl⟩
  | @cons m m' ms ms' hm hms =>
    cases hms with
    | cons hm' hms => exact memberOfSeveral negated ha (.cons hm (.cons hm' hms))
    | nil =>
      unfold Reader.memberOfList
      simp only
      rw [expr_congr (Expr.isConstant_outline false) hm, expr_congr Expr.isVector_outline ha]
      split
      · have hsettled : (Expr.positive m.expr.settled).outline κ.names = (Expr.positive m'.expr.settled).outline κ.names := by
          simp only [Expr.outline, ← Expr.settled_outline, hm.expr]
        refine (node hsettled (.cons hm .nil)).next fun b b' hb => ?_
        refine (node ?_ (.cons ha (.cons hb .nil))).next fun t t' ht => negatedIf negated ht
        simp [Expr.outline, ha.expr, hb.expr]
      · have hquery (n : Nat) : m.expr = .query n ↔ m'.expr = .query n := by
          have houtline (e : Expr) : e.outline κ.names = .query n ↔ e = .query n := by
            cases e <;> simp [Expr.outline]
          rw [← houtline, hm.expr, houtline]
        split
        · next n hn =>
          rw [(hquery n).mp hn, hm.inside]
          exact memberOfQuery negated ha _
        · next hother =>
          split
          · next n hn => exact absurd ((hquery n).mpr hn) (hother n)
          · exact memberOfSeveral negated ha (.cons hm .nil)

end Reader.Agrees
end FirstRow.Sql
