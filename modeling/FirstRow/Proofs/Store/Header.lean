import FirstRow.Proofs.Store.Octets
import Mathlib.Tactic.IntervalCases

/-!
# The header of a database file

`FileHeader` says field by field what the first hundred octets of a database file state about an image: the header of
a file in rollback mode, written by any version of the format that states the encoding. `ofFile` reads exactly that
image.
-/
namespace FirstRow.Store

/-- The text with which a database file begins. -/
def fileMagic : List UInt8 :=
  [0x53, 0x51, 0x4C, 0x69, 0x74, 0x65, 0x20, 0x66, 0x6F, 0x72, 0x6D, 0x61, 0x74, 0x20, 0x33, 0x00]

/-- The number that a header has for an encoding. -/
def Encoding.code : Encoding → Nat
  | .utf8 => 1
  | .utf16 .littleEndian => 2
  | .utf16 .bigEndian => 3

/-- The page count of the header counts: it is there, and it was written by the last writer of the file. -/
def statesPages (bs : ByteArray) : Prop :=
  numberAt bs 28 4 ≠ 0 ∧ octetsAt bs 24 4 = octetsAt bs 92 4

instance (bs : ByteArray) : Decidable (statesPages bs) :=
  inferInstanceAs (Decidable (_ ∧ _))

/-- A file has the header of an image. -/
structure FileHeader (bs : ByteArray) (img : Image) : Prop where
  content : img.content = bs
  magic : octetsAt bs 0 16 = fileMagic
  /-- Pages have from 512 to 65536 octets, a power of two; the greatest size is written as one. -/
  pageSize : ∃ k, 9 ≤ k ∧ k ≤ 16 ∧ img.pageSize = 2 ^ k
  statedSize : numberAt bs 16 2 = if img.pageSize = 65536 then 1 else img.pageSize
  /-- Neither for writing nor for reading is a write-ahead log needed. -/
  writeVersion : octetAt bs 18 = 1
  readVersion : octetAt bs 19 = 1
  reserved : img.usable + (octetAt bs 20).toNat = img.pageSize
  usable : 480 ≤ img.usable
  fractions : octetAt bs 21 = 64 ∧ octetAt bs 22 = 32 ∧ octetAt bs 23 = 32
  pageCount : 0 < img.pageCount
  stated : statesPages bs → img.pageCount = numberAt bs 28 4 ∧ img.pageCount * img.pageSize ≤ bs.size
  unstated : ¬statesPages bs → img.pageCount * img.pageSize = bs.size
  schemaFormat : img.schemaFormat = numberAt bs 44 4
  knownFormat : 1 ≤ img.schemaFormat ∧ img.schemaFormat ≤ 4
  isMapped : img.isMapped = true ↔ numberAt bs 52 4 ≠ 0
  encoding : numberAt bs 56 4 = img.encoding.code

namespace FileHeader

variable {bs : ByteArray} {img : Image}

theorem magic_eq : Header.magic = fileMagic := by decide

theorem numberAt_two (bs : ByteArray) (i : Nat) :
    numberAt bs i 2 = (octetAt bs i).toNat * 0x100 + (octetAt bs (i + 1)).toNat := by
  simp [numberAt, octetsAt_succ, bigEndian]

theorem pageSize_bounds (h : FileHeader bs img) : 512 ≤ img.pageSize ∧ img.pageSize ≤ 65536 := by
  obtain ⟨k, hlow, hhigh, hk⟩ := h.pageSize
  rw [hk]
  interval_cases k <;> decide

theorem proper (h : FileHeader bs img) : img.Proper where
  usable_ge := h.usable
  usable_le := by have := h.reserved; omega
  pageSize_ge := h.pageSize_bounds.1
  pageSize_le := h.pageSize_bounds.2

/-- The page size is read as it is written. -/
theorem pageSize_eq (h : FileHeader bs img) : Header.pageSize bs = img.pageSize := by
  have hstated := h.statedSize
  have hlow := (octetAt bs 17).toNat_lt
  rw [numberAt_two] at hstated
  obtain ⟨k, hk₀, hk₁, hk⟩ := h.pageSize
  unfold Header.pageSize
  rw [hk] at hstated ⊢
  interval_cases k <;> simp at hstated ⊢ <;> omega

theorem isPageSize (h : FileHeader bs img) : Header.isPageSize img.pageSize = true := by
  obtain ⟨k, hk₀, hk₁, hk⟩ := h.pageSize
  rw [hk]
  interval_cases k <;> rfl

theorem pageCount_le (h : FileHeader bs img) : img.pageCount * img.pageSize ≤ bs.size := by
  by_cases hs : statesPages bs
  · exact (h.stated hs).2
  · exact (h.unstated hs).le

/-- The file holds the pages that are counted. -/
theorem pageCount_le_filePages (h : FileHeader bs img) : img.pageCount ≤ Header.filePages bs := by
  have hpos := h.proper.pageSize_ge
  have := h.pageCount_le
  rw [Header.filePages, h.pageSize_eq, Nat.le_div_iff_mul_le (by omega)]
  omega

theorem pageCount_eq (h : FileHeader bs img) :
    (Header.statedPages? bs).getD (Header.filePages bs) = img.pageCount := by
  have hpos := h.proper.pageSize_ge
  by_cases hs : statesPages bs
  · have hsome : Header.statedPages? bs = some (numberAt bs 28 4) := if_pos hs
    rw [hsome, Option.getD_some, (h.stated hs).1]
  · have hnone : Header.statedPages? bs = none := if_neg hs
    rw [hnone, Option.getD_none, Header.filePages, h.pageSize_eq, ← h.unstated hs,
      Nat.add_sub_assoc (by omega), Nat.mul_comm, Nat.mul_add_div (by omega), Nat.div_eq_of_lt (by omega),
      Nat.add_zero]

theorem encoding_eq (h : FileHeader bs img) : Encoding.ofCode (numberAt bs 56 4) = img.encoding := by
  rw [h.encoding]
  cases img.encoding with
  | utf8 => rfl
  | utf16 order => cases order <;> rfl

/-- What stands in the header is read. -/
theorem ofFile_eq (h : FileHeader bs img) (logAllowed : Bool) :
    Image.ofFile bs logAllowed img.isWritable = .ok img := by
  have hproper := h.proper
  have hlow := hproper.pageSize_ge
  have hcount := h.pageCount
  have hsize : 1 < bs.size := by
    have := h.pageCount_le
    have := Nat.mul_le_mul_right img.pageSize hcount
    omega
  have hfractions : octetsAt bs 21 3 = Header.fractions := by
    obtain ⟨h₀, h₁, h₂⟩ := h.fractions
    simp [octetsAt_succ, h₀, h₁, h₂, Header.fractions]
  have hlog : Header.asksForLog bs = false := by
    rw [Header.asksForLog, h.readVersion]
    rfl
  have hformat : max 1 (numberAt bs 44 4 % 0x100) = img.schemaFormat := by
    obtain ⟨h₀, h₁⟩ := h.knownFormat
    rw [← h.schemaFormat]
    omega
  have husable : img.pageSize - (octetAt bs 20).toNat = img.usable := by
    have := h.reserved
    omega
  have hmapped : decide (numberAt bs 52 4 ≠ 0) = img.isMapped := by
    rw [Bool.eq_iff_iff, decide_eq_true_iff, h.isMapped]
  have hwritable : (img.isWritable && decide (octetAt bs 18 ≤ 2)) = img.isWritable := by
    rw [h.writeVersion]
    simp
  unfold Image.ofFile
  simp only [magic_eq, h.magic, h.readVersion, hlog, hfractions, h.isPageSize, h.pageSize_eq, h.pageCount_eq, husable,
    h.encoding_eq, hformat, hmapped, hwritable]
  rw [if_neg (by omega), if_neg (by simp), if_neg (by simp), if_neg (by simp), if_neg (by
    have := h.pageCount_le_filePages
    omega), if_neg (by have := h.usable; omega), ← h.content]

end FileHeader

theorem Header.bounds_of_isPageSize {n : Nat} (h : isPageSize n = true) : 512 ≤ n ∧ n ≤ 65536 := by
  simp only [isPageSize, decide_eq_true_eq, List.mem_cons, List.not_mem_nil, or_false] at h
  omega

namespace Image

theorem empty_proper : empty.Proper where
  usable_ge := by decide
  usable_le := by decide
  pageSize_ge := by decide
  pageSize_le := by decide

/-- Whatever header is accepted, the measures of pages are in order. -/
theorem ofFile_proper {bs : ByteArray} {logAllowed mayWrite : Bool} {img : Image}
    (h : ofFile bs logAllowed mayWrite = .ok img) : img.Proper := by
  simp only [ofFile] at h
  split at h
  · cases h
    exact empty_proper
  split at h
  · cases h
  split at h
  · cases h
  split at h
  · cases h
  next hsize =>
  split at h
  · cases h
  split at h
  · cases h
  next husable =>
  cases h
  have hstated : octetsAt bs 21 3 = Header.fractions ∧ Header.isPageSize (Header.pageSize bs) = true := by
    simpa using hsize
  have hbounds := Header.bounds_of_isPageSize hstated.2
  exact ⟨Nat.le_of_not_lt husable, Nat.sub_le _ _, hbounds.1, hbounds.2⟩

end Image
end FirstRow.Store
