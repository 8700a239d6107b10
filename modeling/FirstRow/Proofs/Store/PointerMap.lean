import FirstRow.Proofs.Store.Octets
import FirstRow.Store.PointerMap

/-!
# Maps of pages

Maps lie at regular distances, the first on the second page, and give way to the page for locks. `Mapped` says what
the entries of a file must be like: each has a use, and a page that continues a chain is what the page in front of it
refers to. Then the map never disagrees with the pages, and the page behind a page of a chain is the one that it
refers to, whether the map is asked or not.
-/
namespace FirstRow.Store

namespace Image

/-- How many entries a map has. -/
def mapEntries (img : Image) : Nat :=
  img.usable / 5

/-- Where the `k`th map would be if there were no page for locks. -/
def mapBase (img : Image) (k : Nat) : Nat :=
  2 + k * (img.mapEntries + 1)

/-- The `k`th map. -/
def mapPage (img : Image) (k : Nat) : Nat :=
  if img.mapBase k = img.lockPage then img.mapBase k + 1 else img.mapBase k

/-- The maps of a file are in order: the `i`th entry of a map is about the `i`th page behind it, up to the next map,
and states one of the five uses. A page that continues a chain follows the page that its entry states. -/
def Mapped (img : Image) : Prop :=
  ∀ k i n, n = img.mapPage k + 1 + i → n < img.mapBase (k + 1) → n ≠ img.lockPage → n ≤ img.pageCount →
    1 ≤ img.numberIn (img.mapPage k) (5 * i) 1 ∧ img.numberIn (img.mapPage k) (5 * i) 1 ≤ 5 ∧
      (img.numberIn (img.mapPage k) (5 * i) 1 = 4 →
        img.numberIn (img.numberIn (img.mapPage k) (5 * i + 1) 4) 0 4 = n)

end Image

namespace PointerMap

variable {img : Image}

theorem succ_mod {n s : Nat} (hs : 1 < s) : (n + 1) % s = if n % s + 1 = s then 0 else n % s + 1 := by
  have hlt := Nat.mod_lt n (show 0 < s by omega)
  rw [Nat.add_mod, Nat.mod_eq_of_lt hs]
  split
  · next h => rw [h, Nat.mod_self]
  · exact Nat.mod_eq_of_lt (by omega)

theorem span_gt (hp : img.Proper) : 2 < span img := by
  have := hp.usable_ge
  unfold span
  omega

/-- A page that can hold content stands behind its map, in front of the next one. -/
theorem exists_entry {n : Nat} (hn : 2 ≤ n) (h : holdsContent img n = true) :
    ∃ k i, mapOf img n = img.mapPage k ∧ n = img.mapPage k + 1 + i ∧ n < img.mapBase (k + 1) ∧ n ≠ img.lockPage := by
  simp only [holdsContent, Bool.and_eq_true, decide_eq_true_eq] at h
  obtain ⟨hmap, hlock⟩ := h
  have hspan : span img = img.mapEntries + 1 := rfl
  have hdiv := Nat.div_add_mod (n - 2) (span img)
  have hmod := Nat.mod_lt (n - 2) (show 0 < span img by omega)
  have hbase : img.mapBase ((n - 2) / span img) = (n - 2) / span img * span img + 2 := by
    rw [Image.mapBase, hspan]
    omega
  have hnext : img.mapBase ((n - 2) / span img + 1) = (n - 2) / span img * span img + span img + 2 := by
    rw [Image.mapBase, ← hspan, Nat.add_mul]
    omega
  rw [Nat.mul_comm] at hdiv
  have hpage : mapOf img n = img.mapPage ((n - 2) / span img) := by
    unfold mapOf Image.mapPage
    rw [hbase]
  refine ⟨(n - 2) / span img, n - mapOf img n - 1, hpage, ?_, by omega, hlock⟩
  rw [← hpage]
  unfold mapOf at hmap ⊢
  simp only at hmap ⊢
  generalize (n - 2) / span img * span img = base at hdiv hmap
  split at hmap <;> next hb => simp only [hb, if_true, if_false]; omega

/-- A page that can hold no content is a map or the page for locks. -/
theorem mod_of_not_holdsContent {n : Nat} (hn : 2 ≤ n) (h : holdsContent img n = false) :
    (n - 2) % span img = 0 ∨ n = img.lockPage ∨ (n - 2) % span img = 1 ∧ n - 1 = img.lockPage := by
  have hdiv := Nat.div_add_mod (n - 2) (span img)
  rw [Nat.mul_comm] at hdiv
  simp only [holdsContent, Bool.and_eq_false_iff, decide_eq_false_iff_not, not_not] at h
  rcases h with h | h
  · unfold mapOf at h
    simp only at h
    generalize (n - 2) / span img * span img = base at hdiv h
    split at h <;> omega
  · exact .inr (.inl h)

/-- The first page behind a page that can hold content does. -/
theorem holdsContent_successor (hp : img.Proper) {n : Nat} (hn : 0 < n) :
    holdsContent img (successor img n) = true := by
  have hspan := span_gt hp
  unfold successor
  split
  · assumption
  · next h₁ =>
    split
    · assumption
    · next h₂ =>
      rw [Bool.not_eq_true] at h₁ h₂
      have hmod₂ := succ_mod (n := n + 1 - 2) (s := span img) (by omega)
      have hmod₃ := succ_mod (n := n + 2 - 2) (s := span img) (by omega)
      rw [show n + 1 - 2 + 1 = n + 2 - 2 by omega] at hmod₂
      rw [show n + 2 - 2 + 1 = n + 3 - 2 by omega] at hmod₃
      have h₁ := mod_of_not_holdsContent (by omega) h₁
      have h₂ := mod_of_not_holdsContent (by omega) h₂
      by_contra h₃
      rw [Bool.not_eq_true] at h₃
      have h₃ := mod_of_not_holdsContent (by omega) h₃
      split at hmod₂ <;> split at hmod₃ <;> omega

theorem le_successor (img : Image) (n : Nat) : n < successor img n := by
  unfold successor
  split
  · omega
  · split <;> omega

theorem numberAt_one (bs : ByteArray) (i : Nat) : numberAt bs i 1 = (octetAt bs i).toNat := by
  simp [numberAt, octetsAt_succ, bigEndian]

/-- What the map says of a page agrees with what pages refer to. -/
theorem continues_eq (hp : img.Proper) (hm : img.Mapped) {n : Nat} (previous : Nat) (hn : 2 ≤ n)
    (hcontent : holdsContent img n = true) (hle : n ≤ img.pageCount) :
    ∃ given, continues img n previous = .ok given ∧ (given = true → img.numberIn previous 0 4 = n) := by
  obtain ⟨k, i, hmap, hi, hnext, hlock⟩ := exists_entry hn hcontent
  obtain ⟨hlow, hhigh, hcontinued⟩ := hm k i n hi hnext hlock hle
  have hpage : img.IsPage (img.mapPage k) := by
    have hbase : 2 ≤ img.mapBase k := Nat.le_add_right 2 _
    unfold Image.mapPage at hi ⊢
    split at hi <;> next hb => simp only [hb, if_true, if_false]; exact ⟨by omega, by omega, by omega⟩
  have hentries : i < img.mapEntries := by
    have hbase : img.mapBase (k + 1) = img.mapBase k + (img.mapEntries + 1) := by
      rw [Image.mapBase, Image.mapBase, Nat.add_mul]
      omega
    unfold Image.mapPage at hi
    split at hi <;> omega
  have hroom : 5 * i + 5 ≤ img.pageSize := by
    have := hp.usable_le
    unfold Image.mapEntries at hentries
    omega
  have huse : (octetAt (img.pageOf (img.mapPage k)).octets (5 * i)).toNat = img.numberIn (img.mapPage k) (5 * i) 1 := by
    rw [← numberAt_one, Image.numberAt_pageOf hpage.pos (by omega)]
  have hparent : numberAt (img.pageOf (img.mapPage k)).octets (5 * i + 1) 4 =
      img.numberIn (img.mapPage k) (5 * i + 1) 4 := Image.numberAt_pageOf hpage.pos (by omega)
  have hplace : 5 * (n - (img.pageOf (img.mapPage k)).number - 1) = 5 * i := by
    rw [hi, show (img.pageOf (img.mapPage k)).number = img.mapPage k from rfl]
    omega
  simp only [continues, hmap, Image.page_eq hpage]
  simp only [bind, Except.bind, hplace, hparent]
  generalize octetAt (img.pageOf (img.mapPage k)).octets (5 * i) = use at huse
  have hzero : use ≠ 0 := by
    rintro rfl
    simp at huse
    omega
  have hknown : ¬(decide (use = 0) || decide (uses < use.toNat)) = true := by
    rw [Bool.or_eq_true, decide_eq_true_eq, decide_eq_true_eq, not_or]
    exact ⟨hzero, by unfold uses; omega⟩
  refine ⟨_, if_neg hknown, ?_⟩
  intro hgiven
  simp only [Bool.and_eq_true, decide_eq_true_eq] at hgiven
  rw [← hgiven.2]
  exact hcontinued (by rw [← huse, hgiven.1]; rfl)

/-- The page behind a page of a chain is the one that it refers to. -/
theorem next_eq (hp : img.Proper) (hm : img.isMapped = true → img.Mapped) {n : Nat} (h : img.IsPage n) :
    next img n = .ok (img.numberIn n 0 4) := by
  have hpages := hp.pageSize_ge
  have hpos := h.pos
  have hlater := le_successor img n
  have href : numberAt (img.pageOf n).octets 0 4 = img.numberIn n 0 4 := Image.numberAt_pageOf h.pos (by omega)
  unfold next
  simp only
  split
  · next hasked =>
    simp only [Bool.and_eq_true, decide_eq_true_eq] at hasked
    obtain ⟨given, hgiven, hnext⟩ := continues_eq hp (hm hasked.1) n (by omega)
      (holdsContent_successor hp hpos) hasked.2
    simp only [hgiven, bind, Except.bind]
    cases given with
    | true => simp [hnext]
    | false => simp [Image.page_eq h, href]
  · simp [Image.page_eq h, href, bind, Except.bind]

end PointerMap
end FirstRow.Store
