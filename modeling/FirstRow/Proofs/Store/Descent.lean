import FirstRow.Proofs.Store.Catalog
import FirstRow.Proofs.Store.Chain
import Mathlib.Logic.Relation

/-!
# Descents that do not end

Both walks go down from page to page by numbers that stand in the file, so a page can be its own descendant. `Descends`
is one step down; a page `Recurs` if steps lead from it back to it. A walk that succeeds has gone down to leaves
everywhere below the pages it visits, which makes the steps below them well-founded: so no walk succeeds that comes to a
page that recurs.
-/
namespace FirstRow.Store

/-- Steps lead from a page to one that they come back to. -/
def Recurs (step : Nat → Nat → Prop) (n : Nat) : Prop :=
  ∃ p, Relation.ReflTransGen step n p ∧ Relation.TransGen step p p

/-- Where steps end, whichever way they go, none of them comes back. -/
theorem not_recurs_of_acc {step : Nat → Nat → Prop} {n : Nat} (h : Acc (fun m n => step n m) n) : ¬Recurs step n := by
  induction h with
  | intro n _ ih =>
    rintro ⟨p, hreach, hcycle⟩
    rcases Relation.ReflTransGen.cases_head hreach with rfl | ⟨m, hstep, hrest⟩
    · obtain ⟨m, hstep, hback⟩ := Relation.TransGen.head'_iff.mp hcycle
      exact ih m hstep ⟨m, .refl, .tail' hback hstep⟩
    · exact ih m hstep ⟨p, hrest, hcycle⟩

namespace Walk

variable {img : Image} {kind : TreeKind}

/-- A page is a child of an interior page. -/
def Descends (img : Image) (n m : Nat) : Prop :=
  ∃ t, TreePage.load img n = .ok t ∧ t.isLeaf = false ∧ m ∈ t.children img

/-- A page is the first child of an interior page. -/
def DescendsLeft (img : Image) (n m : Nat) : Prop :=
  ∃ t, TreePage.load img n = .ok t ∧ t.isLeaf = false ∧ m = t.childBefore img 0

/-! ## Pages that are loaded -/

/-- A tree page has the number by which it was loaded. -/
theorem number_of_load {n : Nat} {t : TreePage} (h : TreePage.load img n = .ok t) : t.page.number = n := by
  obtain ⟨p, hpage, htree⟩ := Catalog.bind_eq_ok h
  have hp : p.number = n := by
    unfold Image.page at hpage
    split at hpage
    · cases hpage
    · cases hpage
      rfl
  unfold TreePage.ofPage at htree
  dsimp only at htree
  split at htree
  · cases htree
  · split at htree
    · cases htree
    · cases htree
      exact hp

theorem load_of_child {n : Nat} {t : TreePage} (h : child img kind n = .ok t) : TreePage.load img n = .ok t := by
  obtain ⟨t', hload, ht⟩ := Catalog.bind_eq_ok h
  split at ht
  · cases ht
  · cases ht
    exact hload

theorem load_of_root {n : Nat} {t : TreePage} (h : root img kind n = .ok t) : TreePage.load img n = .ok t := by
  obtain ⟨t', hload, ht⟩ := Catalog.bind_eq_ok h
  split at ht
  · cases ht
  · cases ht
    exact hload

/-- A page that cannot be loaded, or is no page of the tree, makes the file malformed. -/
theorem load_error {n : Nat} {e : Error} (h : TreePage.load img n = .error e) : e = .malformed := by
  unfold TreePage.load at h
  cases hpage : img.page n with
  | error e' =>
    rw [hpage] at h
    cases h
    unfold Image.page at hpage
    split at hpage
    · exact (Except.error.inj hpage).symm
    · cases hpage
  | ok p =>
    rw [hpage] at h
    replace h : TreePage.ofPage img p = .error e := h
    unfold TreePage.ofPage at h
    dsimp only at h
    split at h
    · exact (Except.error.inj h).symm
    · split at h
      · exact (Except.error.inj h).symm
      · cases h

theorem child_error {n : Nat} {e : Error} (h : child img kind n = .error e) : e = .malformed := by
  unfold child at h
  cases hload : TreePage.load img n with
  | error e' =>
    rw [hload] at h
    cases h
    exact load_error hload
  | ok t =>
    rw [hload, Chain.ok_bind] at h
    split at h
    · exact (Except.error.inj h).symm
    · cases h

theorem root_error {n : Nat} {e : Error} (h : root img kind n = .error e) : e = .malformed := by
  unfold root at h
  cases hload : TreePage.load img n with
  | error e' =>
    rw [hload] at h
    cases h
    exact load_error hload
  | ok t =>
    rw [hload, Chain.ok_bind] at h
    split at h
    · exact (Except.error.inj h).symm
    · cases h

/-! ## All of a tree -/

/-- A visit of several subtrees that ends in order has visited each of them in order. -/
theorem of_concat {visits : List Visit} (h : (concat visits).2 = none) : ∀ v ∈ visits, v.2 = none := by
  induction visits with
  | nil => simp
  | cons v rest ih =>
    obtain ⟨cells, e⟩ := v
    cases e with
    | some e => cases h
    | none => exact List.forall_mem_cons.mpr ⟨rfl, ih h⟩

/-- A leaf has no children. -/
theorem acc_of_isLeaf {step : Nat → Nat → Prop} {n : Nat} {t : TreePage} (hload : TreePage.load img n = .ok t)
    (hleaf : t.isLeaf = true) (hstep : ∀ m, step n m → ∃ t, TreePage.load img n = .ok t ∧ t.isLeaf = false) :
    Acc (fun m n => step n m) n := by
  refine ⟨n, fun m hm => ?_⟩
  obtain ⟨t', hload', hinner⟩ := hstep m hm
  rw [hload] at hload'
  cases hload'
  rw [hleaf] at hinner
  cases hinner

/-- Steps below a page that was visited in order come to an end. The induction is on how often one can still go down. -/
theorem acc_of_below {levels n : Nat} {t : TreePage} (hload : TreePage.load img n = .ok t)
    (h : (below img levels t).2 = none) : Acc (fun m n => Descends img n m) n := by
  induction levels generalizing n t with
  | zero =>
    unfold below at h
    split at h
    · next hleaf => exact acc_of_isLeaf hload hleaf fun m ⟨t', hload', hinner, _⟩ => ⟨t', hload', hinner⟩
    · cases h
  | succ levels ih =>
    unfold below at h
    split at h
    · next hleaf => exact acc_of_isLeaf hload hleaf fun m ⟨t', hload', hinner, _⟩ => ⟨t', hload', hinner⟩
    · refine ⟨n, fun m ⟨t', hload', _, hm⟩ => ?_⟩
      rw [hload] at hload'
      cases hload'
      have hvisit := of_concat h _ (List.mem_map_of_mem hm)
      cases hchild : child img t.kind m with
      | error e =>
        rw [hchild] at hvisit
        cases hvisit
      | ok t' =>
        rw [hchild] at hvisit
        exact ih (load_of_child hchild) hvisit

/-- Where steps down from the first page come back to a page, the walk over the entries of the schema does not end in
order. -/
theorem schema_error (h : Recurs (Descends img) 1) : ∃ e, (schema img).2 = some e := by
  cases hvisit : (schema img).2 with
  | some e => exact ⟨e, rfl⟩
  | none =>
    exfalso
    refine not_recurs_of_acc ?_ h
    unfold schema at hvisit
    split at hvisit
    · -- without pages there is no step
      next hnone =>
      refine ⟨1, fun m ⟨t, hload, _⟩ => ?_⟩
      unfold TreePage.load Image.page at hload
      simp [hnone] at hload
      cases hload
    · cases hroot : root img .table 1 with
      | error e =>
        rw [hroot] at hvisit
        cases hvisit
      | ok t =>
        rw [hroot] at hvisit
        exact acc_of_below (load_of_root hroot) hvisit

/-! ## The left edge -/

/-- Steps down the left edge of a page with a leftmost leaf come to an end. -/
theorem acc_of_leftmost {levels n : Nat} {t leaf : TreePage} (hload : TreePage.load img n = .ok t)
    (h : leftmost img levels t = .ok leaf) : Acc (fun m n => DescendsLeft img n m) n := by
  induction levels generalizing n t with
  | zero =>
    unfold leftmost at h
    split at h
    · next hleaf => exact acc_of_isLeaf hload hleaf fun m ⟨t', hload', hinner, _⟩ => ⟨t', hload', hinner⟩
    · cases h
  | succ levels ih =>
    unfold leftmost at h
    split at h
    · next hleaf => exact acc_of_isLeaf hload hleaf fun m ⟨t', hload', hinner, _⟩ => ⟨t', hload', hinner⟩
    · obtain ⟨t', hchild, hrest⟩ := Catalog.bind_eq_ok h
      refine ⟨n, fun m ⟨t'', hload', _, hm⟩ => ?_⟩
      rw [hload] at hload'
      cases hload'
      subst hm
      exact ih (load_of_child hchild) hrest

theorem leftmost_error {levels : Nat} {t : TreePage} {e : Error} (h : leftmost img levels t = .error e) :
    e = .malformed := by
  induction levels generalizing t with
  | zero =>
    unfold leftmost at h
    split at h
    · cases h
    · exact (Except.error.inj h).symm
  | succ levels ih =>
    unfold leftmost at h
    split at h
    · cases h
    · cases hchild : child img t.kind (t.childBefore img 0) with
      | error e' =>
        rw [hchild] at h
        cases h
        exact child_error hchild
      | ok t' =>
        rw [hchild] at h
        exact ih h

/-- Where steps down the left edge of a tree come back to a page, the tree has no first entry: the file is malformed. -/
theorem first?_error {n : Nat} (h : Recurs (DescendsLeft img) n) : first? img kind n = .error .malformed := by
  unfold first?
  cases hroot : root img kind n with
  | error e => rw [root_error hroot]; rfl
  | ok t =>
    rw [Chain.ok_bind]
    have hload := load_of_root hroot
    cases hleaf : t.isLeaf with
    | true =>
      exact absurd h (not_recurs_of_acc (acc_of_isLeaf hload hleaf fun m ⟨t', hload', hinner, _⟩ => ⟨t', hload', hinner⟩))
    | false =>
      split
      · rfl
      · cases hleft : leftmost img maxDescents t with
        | error e => rw [leftmost_error hleft]; rfl
        | ok leaf => exact absurd h (not_recurs_of_acc (acc_of_leftmost hload hleft))

end Walk
end FirstRow.Store
