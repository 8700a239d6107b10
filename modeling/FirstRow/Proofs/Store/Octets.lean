import FirstRow.Store.Image
import Mathlib.Algebra.Group.Nat.Defs
import Mathlib.Data.List.Induction

/-!
# Octets of pages

A page is a stretch of the file, so what is read from a page is read from the file. `Image.Holds` says that given
octets stand on a page from an index on, in front of its reserved end; `Image.IsPage` says which numbers pages have.
-/
namespace FirstRow.Store

/-! ## Stretches of octets -/

@[simp] theorem length_octetsAt (bs : ByteArray) (i n : Nat) : (octetsAt bs i n).length = n := by
  simp [octetsAt]

@[simp] theorem octetsAt_zero (bs : ByteArray) (i : Nat) : octetsAt bs i 0 = [] := rfl

theorem octetsAt_add (bs : ByteArray) (i m n : Nat) :
    octetsAt bs i (m + n) = octetsAt bs i m ++ octetsAt bs (i + m) n := by
  simp only [octetsAt, List.range_add, List.map_append, List.map_map]
  congr 1
  refine List.map_congr_left fun k _ => ?_
  simp [Nat.add_assoc]

theorem octetsAt_succ (bs : ByteArray) (i n : Nat) :
    octetsAt bs i (n + 1) = octetAt bs i :: octetsAt bs (i + 1) n := by
  rw [Nat.add_comm n 1, octetsAt_add]
  rfl

theorem octetsAt_take {bs : ByteArray} {i m n : Nat} (h : m ≤ n) : (octetsAt bs i n).take m = octetsAt bs i m := by
  obtain ⟨k, rfl⟩ := Nat.exists_eq_add_of_le h
  rw [octetsAt_add, List.take_append_of_le_length (by simp), List.take_of_length_le (by simp)]

theorem octetsAt_drop {bs : ByteArray} {i m n : Nat} (h : m ≤ n) :
    (octetsAt bs i n).drop m = octetsAt bs (i + m) (n - m) := by
  obtain ⟨k, rfl⟩ := Nat.exists_eq_add_of_le h
  rw [octetsAt_add, List.drop_append_of_le_length (by simp), List.drop_of_length_le (by simp), List.nil_append,
    Nat.add_sub_cancel_left]

/-- A part of a stretch that stands in a file stands there too. -/
theorem octetsAt_part {bs : ByteArray} {i m n : Nat} {s : List UInt8} (h : octetsAt bs i s.length = s)
    (hle : m + n ≤ s.length) : octetsAt bs (i + m) n = (s.drop m).take n := by
  rw [← h, octetsAt_drop (by omega), octetsAt_take (by omega)]

/-- A stretch is taken in two parts. -/
theorem take_drop_split {α : Type} (l : List α) (i : Nat) {m n : Nat} (h : m ≤ n) :
    (l.drop i).take m ++ (l.drop (i + m)).take (n - m) = (l.drop i).take n := by
  rw [← List.drop_drop, ← List.take_add, Nat.add_sub_cancel' h]

theorem octetAt_of_lt {bs : ByteArray} {i : Nat} (h : i < bs.size) : octetAt bs i = bs[i] := by
  rw [octetAt, dif_pos h]

theorem octetAt_of_le {bs : ByteArray} {i : Nat} (h : bs.size ≤ i) : octetAt bs i = 0 := by
  rw [octetAt, dif_neg (by omega)]

/-- What is read from a stretch of a file is read from the file. -/
theorem octetAt_extract {bs : ByteArray} {a b i : Nat} (h : a + i < b) :
    octetAt (bs.extract a b) i = octetAt bs (a + i) := by
  by_cases hi : a + i < bs.size
  · have hsize : i < (bs.extract a b).size := by
      rw [ByteArray.size_extract]
      omega
    rw [octetAt_of_lt hi, octetAt_of_lt hsize, ByteArray.getElem_extract]
  · have hsize : (bs.extract a b).size ≤ i := by
      rw [ByteArray.size_extract]
      omega
    rw [octetAt_of_le hsize, octetAt_of_le (by omega)]

theorem octetsAt_extract {bs : ByteArray} {a b i n : Nat} (h : a + i + n ≤ b) :
    octetsAt (bs.extract a b) i n = octetsAt bs (a + i) n := by
  refine List.map_congr_left fun k hk => ?_
  have hk : k < n := List.mem_range.mp hk
  rw [octetAt_extract (by omega), Nat.add_assoc]

theorem numberAt_extract {bs : ByteArray} {a b i n : Nat} (h : a + i + n ≤ b) :
    numberAt (bs.extract a b) i n = numberAt bs (a + i) n := by
  rw [numberAt, octetsAt_extract h, numberAt]

/-! ## Numbers -/

theorem bigEndian_append_singleton (bs : List UInt8) (b : UInt8) :
    bigEndian (bs ++ [b]) = bigEndian bs * 0x100 + b.toNat := by
  simp [bigEndian]

/-- A number has no more values than its octets leave room for. -/
theorem bigEndian_lt (bs : List UInt8) : bigEndian bs < 0x100 ^ bs.length := by
  induction bs using List.reverseRecOn with
  | nil => decide
  | append_singleton bs b ih =>
    rw [bigEndian_append_singleton, List.length_append, List.length_singleton, pow_succ]
    have := b.toNat_lt
    omega

/-! ## Pages -/

namespace Image

variable {img : Image}

/-- The measures of pages are in order. -/
structure Proper (img : Image) : Prop where
  usable_ge : 480 ≤ img.usable
  usable_le : img.usable ≤ img.pageSize
  pageSize_ge : 512 ≤ img.pageSize
  pageSize_le : img.pageSize ≤ 65536

/-- A number that a page has: there is no page zero, and the page for locks holds nothing. -/
structure IsPage (img : Image) (n : Nat) : Prop where
  pos : 0 < n
  le : n ≤ img.pageCount
  ne_lockPage : n ≠ img.lockPage

instance (img : Image) (n : Nat) : Decidable (img.IsPage n) :=
  decidable_of_iff (0 < n ∧ n ≤ img.pageCount ∧ n ≠ img.lockPage)
    ⟨fun h => ⟨h.1, h.2.1, h.2.2⟩, fun h => ⟨h.pos, h.le, h.ne_lockPage⟩⟩

/-- The page of a number. -/
def pageOf (img : Image) (n : Nat) : Page :=
  ⟨n, img.content.extract ((n - 1) * img.pageSize) (n * img.pageSize)⟩

/-- Where in the file an octet of a page stands. -/
def place (img : Image) (n i : Nat) : Nat :=
  (n - 1) * img.pageSize + i

/-- Some octets stand on a page from an index on, in front of its reserved end. -/
structure Holds (img : Image) (n i : Nat) (bs : List UInt8) : Prop where
  octets : octetsAt img.content (img.place n i) bs.length = bs
  within : i + bs.length ≤ img.usable

instance (img : Image) (n i : Nat) (bs : List UInt8) : Decidable (img.Holds n i bs) :=
  decidable_of_iff (octetsAt img.content (img.place n i) bs.length = bs ∧ i + bs.length ≤ img.usable)
    ⟨fun h => ⟨h.1, h.2⟩, fun h => ⟨h.octets, h.within⟩⟩

/-- The number in `length` octets of a page. -/
def numberIn (img : Image) (n i length : Nat) : Nat :=
  numberAt img.content (img.place n i) length

theorem page_eq {n : Nat} (h : img.IsPage n) : img.page n = .ok (img.pageOf n) := by
  have h₀ := h.pos
  have h₁ := h.le
  have h₂ := h.ne_lockPage
  unfold page
  rw [if_neg (by simp; omega)]
  rfl

theorem place_add (img : Image) (n i k : Nat) : img.place n (i + k) = img.place n i + k := by
  unfold place
  omega

theorem place_le {n i k : Nat} (hn : 0 < n) (h : i + k ≤ img.pageSize) :
    (n - 1) * img.pageSize + i + k ≤ n * img.pageSize := by
  obtain ⟨m, rfl⟩ : ∃ m, n = m + 1 := ⟨n - 1, by omega⟩
  rw [Nat.add_sub_cancel, Nat.succ_mul]
  omega

theorem octetsAt_pageOf {n i k : Nat} (hn : 0 < n) (h : i + k ≤ img.pageSize) :
    octetsAt (img.pageOf n).octets i k = octetsAt img.content (img.place n i) k :=
  octetsAt_extract (place_le hn h)

theorem numberAt_pageOf {n i k : Nat} (hn : 0 < n) (h : i + k ≤ img.pageSize) :
    numberAt (img.pageOf n).octets i k = img.numberIn n i k :=
  numberAt_extract (place_le hn h)

/-- What a page holds is read from the page. -/
theorem Holds.octetsAt_pageOf {n i : Nat} {bs : List UInt8} (h : img.Holds n i bs) (hp : img.Proper) (hn : 0 < n) :
    octetsAt (img.pageOf n).octets i bs.length = bs := by
  have := h.within
  have := hp.usable_le
  rw [Image.octetsAt_pageOf hn (by omega), h.octets]

/-- A part of what a page holds. -/
theorem Holds.part {n i m k : Nat} {bs : List UInt8} (h : img.Holds n i bs) (hle : m + k ≤ bs.length) :
    img.Holds n (i + m) ((bs.drop m).take k) := by
  have hlength : ((bs.drop m).take k).length = k := by
    rw [List.length_take, List.length_drop]
    omega
  refine ⟨?_, ?_⟩
  · rw [hlength, place_add, octetsAt_part h.octets hle]
  · have := h.within
    omega

theorem Holds.left {n i : Nat} {as bs : List UInt8} (h : img.Holds n i (as ++ bs)) : img.Holds n i as := by
  have hpart : img.Holds n (i + 0) (((as ++ bs).drop 0).take as.length) := h.part (by simp)
  simpa using hpart

theorem Holds.right {n i : Nat} {as bs : List UInt8} (h : img.Holds n i (as ++ bs)) :
    img.Holds n (i + as.length) bs := by
  have hpart : img.Holds n (i + as.length) (((as ++ bs).drop as.length).take bs.length) := h.part (by simp)
  simpa using hpart

end Image
end FirstRow.Store
