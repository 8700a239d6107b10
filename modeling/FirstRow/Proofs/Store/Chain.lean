import FirstRow.Proofs.Store.PointerMap
import FirstRow.Store.Chain

/-!
# Chains hold their data

`Chained` says which pages hold which octets: every page but the last one is full and refers to the next. The pages
that a reader remembers are at any time the first ones of the chain, and that is what makes it safe to start in the
middle: `read_eq` gives the asked part of the data from every such state, and leaves one.
-/
namespace FirstRow.Store

/-- Pages form a chain that holds some octets. What the last page refers to is of no matter. -/
inductive Chained (img : Image) : List Nat → List UInt8 → Prop where
  | last {p : Nat} {bs : List UInt8} : img.IsPage p → bs ≠ [] → bs.length ≤ Chain.perPage img → img.Holds p 4 bs →
      Chained img [p] bs
  | more {p q : Nat} {ps : List Nat} {bs rest : List UInt8} : img.IsPage p → bs.length = Chain.perPage img →
      img.Holds p 4 bs → img.numberIn p 0 4 = q → Chained img (q :: ps) rest → Chained img (p :: q :: ps) (bs ++ rest)

namespace Chained

variable {img : Image} {pages : List Nat} {data : List UInt8}

theorem ne_nil (h : Chained img pages data) : pages ≠ [] := by
  cases h <;> simp

theorem isPage (h : Chained img pages data) : ∀ p ∈ pages, img.IsPage p := by
  induction h with
  | last hp => simpa using hp
  | more hp _ _ _ _ ih =>
    intro p hmem
    rcases List.mem_cons.mp hmem with rfl | hmem
    · exact hp
    · exact ih p hmem

/-- The chain has room for its data. -/
theorem length_le (h : Chained img pages data) : data.length ≤ pages.length * Chain.perPage img := by
  induction h with
  | last _ _ hle => simpa using hle
  | more _ hlen _ _ _ ih =>
    rw [List.length_append, List.length_cons, Nat.succ_mul, hlen]
    omega

/-- A page of the chain holds its share of the data. -/
theorem holds (h : Chained img pages data) {i p : Nat} (hi : pages[i]? = some p) :
    img.Holds p 4 ((data.drop (i * Chain.perPage img)).take (Chain.perPage img)) := by
  induction h generalizing i with
  | last _ _ hle hholds =>
    cases i with
    | zero =>
      cases hi
      rwa [Nat.zero_mul, List.drop_zero, List.take_of_length_le hle]
    | succ i => cases hi
  | more _ hlen hholds _ _ ih =>
    cases i with
    | zero =>
      cases hi
      rwa [Nat.zero_mul, List.drop_zero, List.take_append_of_le_length (Nat.le_of_eq hlen.symm), List.take_of_length_le (Nat.le_of_eq hlen)]
    | succ i =>
      have hdrop : (i + 1) * Chain.perPage img = Chain.perPage img + i * Chain.perPage img := by
        rw [Nat.succ_mul, Nat.add_comm]
      rw [hdrop, ← List.drop_drop, List.drop_append_of_le_length (Nat.le_of_eq hlen.symm), List.drop_of_length_le (Nat.le_of_eq hlen),
        List.nil_append]
      exact ih hi

/-- A page of the chain refers to the next one. -/
theorem next (h : Chained img pages data) {i p q : Nat} (hi : pages[i]? = some p) (hj : pages[i + 1]? = some q) :
    img.numberIn p 0 4 = q := by
  induction h generalizing i with
  | last => cases hj
  | more _ _ _ hnext _ ih =>
    cases i with
    | zero =>
      cases hi
      cases hj
      exact hnext
    | succ i => exact ih hi hj

/-- Pages of which each has its share of some data, and refers to the next one, are a chain. -/
theorem of_shares {pages : List Nat} {data : List UInt8} (hne : data ≠ [])
    (hlow : (pages.length - 1) * Chain.perPage img < data.length)
    (hhigh : data.length ≤ pages.length * Chain.perPage img)
    (hpages : ∀ i p, pages[i]? = some p → img.IsPage p ∧
      img.Holds p 4 ((data.drop (i * Chain.perPage img)).take (Chain.perPage img)) ∧
      ∀ q, pages[i + 1]? = some q → img.numberIn p 0 4 = q) : Chained img pages data := by
  induction pages generalizing data with
  | nil =>
    rw [List.length_nil, Nat.zero_mul, Nat.le_zero, List.length_eq_zero_iff] at hhigh
    exact absurd hhigh hne
  | cons p ps ih =>
    obtain ⟨hpage, hholds, hnext⟩ := hpages 0 p rfl
    rw [Nat.zero_mul, List.drop_zero] at hholds
    cases ps with
    | nil =>
      simp only [List.length_singleton, Nat.one_mul] at hhigh
      rw [List.take_of_length_le hhigh] at hholds
      exact .last hpage hne hhigh hholds
    | cons q qs =>
      simp only [List.length_cons, Nat.add_sub_cancel, Nat.succ_mul] at hlow hhigh
      have hrest : Chained img (q :: qs) (data.drop (Chain.perPage img)) := by
        refine ih (List.ne_nil_of_length_pos (by rw [List.length_drop]; omega)) ?_ ?_ fun i r hr => ?_
        · simp only [List.length_cons, Nat.add_sub_cancel, List.length_drop]
          omega
        · simp only [List.length_cons, Nat.succ_mul, List.length_drop]
          omega
        · have hshare := hpages (i + 1) r hr
          rwa [Nat.succ_mul, Nat.add_comm, ← List.drop_drop] at hshare
      rw [← List.take_append_drop (Chain.perPage img) data]
      exact .more hpage (by rw [List.length_take]; omega) hholds (hnext q rfl) hrest

end Chained

/-- The pages that are known are the first ones of a chain. -/
def Known (pages : List Nat) (known : Chain) : Prop :=
  known.toList <+: pages

namespace Known

variable {pages : List Nat} {known : Chain}

theorem empty (pages : List Nat) : Known pages #[] :=
  List.nil_prefix

theorem size_le (h : Known pages known) : known.size ≤ pages.length := by
  simpa using h.length_le

/-- A page that is known at a place is the one of the chain. -/
theorem getElem? (h : Known pages known) {i p : Nat} (hp : known[i]? = some p) : pages[i]? = some p := by
  obtain ⟨rest, hrest⟩ := h
  rw [← Array.getElem?_toList] at hp
  rw [← hrest, List.getElem?_append_left (List.getElem?_eq_some_iff.mp hp).1, hp]

/-- A page that is reached from known ones is known from then on. -/
theorem note (h : Known pages known) {i p : Nat} (hi : i ≤ known.size) (hp : pages[i]? = some p) :
    Known pages (known.note i p) ∧ i < (known.note i p).size := by
  unfold Chain.note
  split
  · next hlt =>
    have hset : known.set i p = known := by
      have hsame := h.getElem? (Array.getElem?_eq_getElem hlt)
      rw [hp, Option.some.injEq] at hsame
      rw [hsame, Array.set_getElem_self]
    rw [hset]
    exact ⟨h, hlt⟩
  · next hge =>
    obtain rfl : i = known.size := by omega
    refine ⟨?_, by simp⟩
    obtain ⟨rest, rfl⟩ := h
    rw [← Array.length_toList, List.getElem?_append_right (Nat.le_refl _), Nat.sub_self] at hp
    cases rest with
    | nil => cases hp
    | cons q rest =>
      cases hp
      exact ⟨rest, by simp⟩

end Known

namespace Chain

variable {img : Image} {pages : List Nat} {data : List UInt8}

theorem ok_bind {α β : Type} (a : α) (f : α → Except Error β) : (Except.ok a >>= f) = f a := rfl

theorem perPage_pos (hp : img.Proper) : 0 < perPage img := by
  have := hp.usable_ge
  unfold perPage
  omega

/-- Going along a chain from one of its pages gives the asked part of the data. The pages in front of it are known. -/
theorem follow_eq (hp : img.Proper) (hm : img.isMapped = true → img.Mapped) (h : Chained img pages data)
    (n i page offset amount : Nat) (known : Chain) :
    pages[i]? = some page → 0 < amount → i * perPage img + offset + amount ≤ data.length →
    offset + amount ≤ n * perPage img → Known pages known → i ≤ known.size →
    ∃ known', Known pages known' ∧
      (follow img n i page offset amount).run known =
        .ok ((data.drop (i * perPage img + offset)).take amount, known') := by
  induction n generalizing i page offset amount known with
  | zero =>
    intro _ _ _ hn
    omega
  | succ n ih =>
    intro hpage hamount hdata hn hk hi
    have hvalid := h.isPage page (List.mem_of_getElem? hpage)
    obtain ⟨hknown, hsize⟩ := hk.note hi hpage
    have hlength := h.length_le
    have hstep : ¬(page = 0 || decide (img.pageCount < page)) = true := by
      have := hvalid.pos
      have := hvalid.le
      simp
      omega
    rw [Nat.succ_mul] at hn
    have hnext (hlt : (i + 1) * perPage img < data.length) : ∃ q, pages[i + 1]? = some q := by
      have : i + 1 < pages.length := Nat.lt_of_mul_lt_mul_right (Nat.lt_of_lt_of_le hlt hlength)
      exact ⟨pages[i + 1], List.getElem?_eq_getElem this⟩
    rw [Nat.succ_mul] at hnext
    simp only [follow, hstep, if_false, Bool.false_eq_true, pure_bind, StateT.run_bind, StateT.run_modify]
    by_cases hskip : perPage img ≤ offset
    · -- the page is passed over, and the next one is known or looked up
      obtain ⟨q, hq⟩ := hnext (by omega)
      obtain ⟨known', hknown', heq⟩ := ih (i + 1) q (offset - perPage img) amount _ hq hamount
        (by rw [Nat.succ_mul]; omega) (by omega) hknown (by omega)
      rw [show (i + 1) * perPage img + (offset - perPage img) = i * perPage img + offset by
        rw [Nat.succ_mul]; omega] at heq
      refine ⟨known', hknown', ?_⟩
      simp only [if_pos hskip, StateT.run_bind, StateT.run_get, pure_bind]
      cases hget : (known.note i page)[i + 1]? with
      | some p =>
        have hp := hknown.getElem? hget
        rw [hq, Option.some.injEq] at hp
        subst hp
        simpa only [StateT.run_pure, pure_bind] using heq
      | none =>
        have hlook := PointerMap.next_eq hp hm hvalid
        rw [h.next hpage hq] at hlook
        simpa only [StateT.run_bind, liftM, StateT.run_monadLift, monadLift_self, hlook, ok_bind, pure_bind] using heq
    · simp only [if_neg hskip, StateT.run_bind, liftM, StateT.run_monadLift, monadLift_self, Image.page_eq hvalid, ok_bind,
        pure_bind]
      have hholds := h.holds hpage
      have hshare : min amount (perPage img - offset) ≤
          ((data.drop (i * perPage img)).take (perPage img)).length - offset := by
        rw [List.length_take, List.length_drop]
        omega
      have hwithin := hholds.within
      have husable := hp.usable_le
      have hhead : octetsAt (img.pageOf page).octets (4 + offset) (min amount (perPage img - offset)) =
          (data.drop (i * perPage img + offset)).take (min amount (perPage img - offset)) := by
        rw [Image.octetsAt_pageOf hvalid.pos (by omega), Image.place_add, octetsAt_part hholds.octets (by omega),
          List.drop_take, List.take_take, List.drop_drop, Nat.min_eq_left (by omega)]
      rw [hhead]
      by_cases hlast : min amount (perPage img - offset) = amount
      · rw [if_pos hlast, hlast]
        exact ⟨_, hknown, rfl⟩
      · have hmin : min amount (perPage img - offset) = perPage img - offset := by omega
        obtain ⟨q, hq⟩ := hnext (by omega)
        obtain ⟨known', hknown', heq⟩ := ih (i + 1) q 0 (amount - (perPage img - offset)) _ hq
          (by omega) (by rw [Nat.succ_mul]; omega) (by omega) hknown (by omega)
        have href : numberAt (img.pageOf page).octets 0 4 = q := by
          rw [Image.numberAt_pageOf hvalid.pos (by have := hp.pageSize_ge; omega), h.next hpage hq]
        refine ⟨known', hknown', ?_⟩
        rw [if_neg hlast, hmin]
        simp only [StateT.run_bind, href, heq, ok_bind, StateT.run_pure]
        rw [show (i + 1) * perPage img + 0 = i * perPage img + offset + (perPage img - offset) by
          rw [Nat.succ_mul]; omega, take_drop_split _ _ (by omega)]
        rfl

/-- A part of the data of a chain, wherever reading starts. -/
theorem read_eq (hp : img.Proper) (hm : img.isMapped = true → img.Mapped) {first : Nat} {rest : List Nat}
    (h : Chained img (first :: rest) data) {offset amount : Nat} (hamount : 0 < amount)
    (hdata : offset + amount ≤ data.length) {known : Chain} (hk : Known (first :: rest) known) :
    ∃ known', Known (first :: rest) known' ∧
      (read img first offset amount).run known = .ok ((data.drop offset).take amount, known') := by
  have hper := perPage_pos hp
  have hpages : offset + amount ≤ (offset + amount + perPage img - 1) / perPage img * perPage img := by
    have hdiv := Nat.div_add_mod (offset + amount + perPage img - 1) (perPage img)
    have hmod := Nat.mod_lt (offset + amount + perPage img - 1) hper
    rw [Nat.mul_comm] at hdiv
    omega
  have hskip : offset / perPage img * perPage img ≤ offset := Nat.div_mul_le_self _ _
  simp only [read, StateT.run_bind, StateT.run_get, pure_bind]
  cases hget : known[offset / perPage img]? with
  | some page =>
    have hsize := (Array.getElem?_eq_some_iff.mp hget).1
    obtain ⟨known', hknown', heq⟩ := follow_eq hp hm h
      ((offset + amount + perPage img - 1) / perPage img - offset / perPage img) _ page
      (offset - offset / perPage img * perPage img) amount known (hk.getElem? hget) hamount (by omega)
      (by rw [Nat.sub_mul]; omega) hk (by omega)
    rw [Nat.add_sub_cancel' hskip] at heq
    exact ⟨known', hknown', heq⟩
  | none =>
    obtain ⟨known', hknown', heq⟩ := follow_eq hp hm h _ 0 first offset amount known rfl hamount (by omega) hpages hk
      (Nat.zero_le _)
    rw [Nat.zero_mul, Nat.zero_add] at heq
    exact ⟨known', hknown', heq⟩

end Chain
end FirstRow.Store
