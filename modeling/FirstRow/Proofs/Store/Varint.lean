import FirstRow.Proofs.Store.Octets
import FirstRow.Proofs.Text.Utf8
import FirstRow.Store.Varint
import Mathlib.Tactic.NormNum
import Mathlib.Tactic.Ring

/-!
# Variable-length integers read back

An integer that was written in some number of octets is read back, whatever follows it. The nine octets that a reader
looks at are enough for every integer of 64 bits.
-/
namespace FirstRow.Store.Varint

/-- An integer has room in one to nine octets: seven bits in each of the first eight, and eight in the ninth. -/
structure Fits (n v : Nat) : Prop where
  pos : 0 < n
  le : n ≤ 9
  lt : v < 0x10000000000000000
  room : n < 9 → v < 0x80 ^ n

instance (n v : Nat) : Decidable (Fits n v) :=
  decidable_of_iff (0 < n ∧ n ≤ 9 ∧ v < 0x10000000000000000 ∧ (n < 9 → v < 0x80 ^ n))
    ⟨fun h => ⟨h.1, h.2.1, h.2.2.1, h.2.2.2⟩, fun h => ⟨h.pos, h.le, h.lt, h.room⟩⟩

@[simp] theorem length_groups (n v : Nat) : (groups n v).length = n := by
  induction n with
  | zero => rfl
  | succ n ih => simp [groups, ih]

theorem length_encodeIn {n v : Nat} (h : 0 < n) : (encodeIn n v).length = n := by
  unfold encodeIn
  split
  · next h9 => simp [h9]
  · simp
    omega

/-- Groups of seven bits are read one after the other. -/
theorem decodeFrom_groups {k left : Nat} (h : k ≤ left) (acc v : Nat) (rest : List UInt8) :
    decodeFrom acc left (groups k v ++ rest) =
      ((decodeFrom (acc * 0x80 ^ k + v % 0x80 ^ k) (left - k) rest).1,
        (decodeFrom (acc * 0x80 ^ k + v % 0x80 ^ k) (left - k) rest).2 + k) := by
  induction k generalizing acc left with
  | zero => simp [groups, Nat.mod_one]
  | succ k ih =>
    obtain ⟨left, rfl⟩ : ∃ m, left = m + 1 := ⟨left - 1, by omega⟩
    have hgroup : (0x80 + v / Nat.pow 0x80 k % 0x80).toUInt8.toNat = 0x80 + v / 0x80 ^ k % 0x80 :=
      Text.Utf8.toNat_toUInt8 (by omega)
    have hacc : (acc * 0x80 + (0x80 + v / 0x80 ^ k % 0x80 - 0x80)) * 0x80 ^ k + v % 0x80 ^ k =
        acc * 0x80 ^ (k + 1) + v % 0x80 ^ (k + 1) := by
      rw [Nat.add_sub_cancel_left, pow_succ, Nat.mod_mul]
      ring
    simp only [groups, List.cons_append, decodeFrom, List.headD_cons, List.tail_cons, hgroup]
    rw [if_neg (by omega), ih (by omega), hacc, Nat.succ_sub_succ_eq_sub]
    simp only [Nat.add_assoc]

theorem decodeFrom_last {left b : Nat} (hb : b < 0x80) (acc : Nat) (rest : List UInt8) :
    decodeFrom acc (left + 1) (b.toUInt8 :: rest) = (acc * 0x80 + b, 1) := by
  have h : b.toUInt8.toNat = b := Text.Utf8.toNat_toUInt8 (by omega)
  simp only [decodeFrom, List.headD_cons, h, if_pos hb]

/-- What was written is read back, whatever follows. -/
theorem decode_encodeIn {n v : Nat} (h : Fits n v) (rest : List UInt8) : decode (encodeIn n v ++ rest) = (v, n) := by
  have hpos := h.pos
  have hle := h.le
  have hlt := h.lt
  unfold decode encodeIn
  split
  · next h9 =>
    subst h9
    have hlast : (v % 0x100).toUInt8.toNat = v % 0x100 := Text.Utf8.toNat_toUInt8 (by omega)
    rw [List.append_assoc, decodeFrom_groups (Nat.le_refl 8)]
    simp only [Nat.sub_self, decodeFrom, List.singleton_append, List.headD_cons, hlast]
    rw [Nat.zero_mul, Nat.zero_add, Nat.mod_eq_of_lt (by norm_num; omega), Nat.div_add_mod']
  · next h9 =>
    obtain ⟨k, rfl⟩ : ∃ k, n = k + 1 := ⟨n - 1, by omega⟩
    have hroom := h.room (by omega)
    rw [pow_succ] at hroom
    obtain ⟨left, hleft⟩ : ∃ m, 8 - k = m + 1 := ⟨7 - k, by omega⟩
    rw [Nat.add_sub_cancel, List.append_assoc, decodeFrom_groups (by omega), hleft, List.singleton_append,
      decodeFrom_last (by omega), Nat.zero_mul, Nat.zero_add, Nat.mod_eq_of_lt (by omega), Nat.div_add_mod']
    simp only [Nat.add_comm 1]

theorem headD_congr {k : Nat} {bs bs' : List UInt8} (h : bs'.take k = bs.take k) (hk : 0 < k) :
    bs'.headD 0 = bs.headD 0 := by
  have hhead := congrArg List.head? h
  rw [List.head?_take, List.head?_take, if_neg (by omega), if_neg (by omega)] at hhead
  rw [List.headD_eq_head?_getD, List.headD_eq_head?_getD, hhead]

theorem decodeFrom_pos (acc left : Nat) (bs : List UInt8) : 0 < (decodeFrom acc left bs).2 := by
  cases left with
  | zero => exact Nat.one_pos
  | succ left =>
    simp only [decodeFrom]
    split <;> simp

theorem decodeFrom_le (acc left : Nat) (bs : List UInt8) : (decodeFrom acc left bs).2 ≤ left + 1 := by
  induction left generalizing acc bs with
  | zero => exact Nat.le_refl 1
  | succ left ih =>
    simp only [decodeFrom]
    split
    · simp
    · exact Nat.succ_le_succ (ih _ _)

/-- An integer takes at most nine octets. -/
theorem decode_le (bs : List UInt8) : (decode bs).2 ≤ 9 :=
  decodeFrom_le 0 8 bs

/-- Only the octets that an integer takes matter for it. -/
theorem decodeFrom_congr {k : Nat} {bs bs' : List UInt8} (h : bs'.take k = bs.take k) (acc left : Nat)
    (hk : (decodeFrom acc left bs).2 ≤ k) : decodeFrom acc left bs' = decodeFrom acc left bs := by
  induction left generalizing acc k bs bs' with
  | zero =>
    have hhead : bs'.headD 0 = bs.headD 0 := headD_congr h (Nat.lt_of_lt_of_le Nat.one_pos hk)
    simp only [decodeFrom, hhead]
  | succ left ih =>
    have hpos := decodeFrom_pos acc (left + 1) bs
    obtain ⟨k, rfl⟩ : ∃ m, k = m + 1 := ⟨k - 1, by omega⟩
    have hhead : bs'.headD 0 = bs.headD 0 := headD_congr h k.succ_pos
    have htail : bs'.tail.take k = bs.tail.take k := by
      have hdrop := congrArg (List.drop 1) h
      rwa [List.drop_take, List.drop_take, List.drop_one, List.drop_one, Nat.add_sub_cancel] at hdrop
    simp only [decodeFrom, hhead] at hk ⊢
    split
    · rfl
    · next hb =>
      rw [if_neg hb] at hk
      rw [ih htail _ (Nat.le_of_succ_le_succ hk)]

theorem decode_congr {k : Nat} {bs bs' : List UInt8} (h : bs'.take k = bs.take k) (hk : (decode bs).2 ≤ k) :
    decode bs' = decode bs :=
  decodeFrom_congr h 0 8 hk

theorem decode32_congr {k : Nat} {bs bs' : List UInt8} (h : bs'.take k = bs.take k) (hk : (decode bs).2 ≤ k) :
    decode32 bs' = decode32 bs := by
  simp only [decode32, decode_congr h hk]

/-- An integer at the head of a stretch of octets is read from any longer stretch. -/
theorem decode_octetsAt {bs : ByteArray} {i n v m : Nat} (h : Fits n v) (hbs : octetsAt bs i n = encodeIn n v)
    (hm : n ≤ m) : decode (octetsAt bs i m) = (v, n) := by
  obtain ⟨k, rfl⟩ := Nat.exists_eq_add_of_le hm
  rw [octetsAt_add, hbs, decode_encodeIn h]

/-- The length that is read where an integer is written in some number of octets: of a ninth octet seven bits count. -/
def lengthOf (n v : Nat) : Nat :=
  if n < 9 then v else v / 0x100 * 0x80 + v % 0x80

/-- A length that is written in up to eight octets, or that has only seven bits, is read back. -/
theorem lengthOf_eq {n v : Nat} (h : n < 9 ∨ v < 0x80) : lengthOf n v = v := by
  unfold lengthOf
  split <;> omega

theorem decodeLength_octetsAt {bs : ByteArray} {i n v m : Nat} (h : Fits n v) (hv : lengthOf n v < 0x100000000)
    (hbs : octetsAt bs i n = encodeIn n v) (hm : n ≤ m) : decodeLength (octetsAt bs i m) = (lengthOf n v, n) := by
  simp only [decodeLength, decode_octetsAt h hbs hm]
  by_cases hn : n < 9
  · simp only [lengthOf, if_pos hn] at hv ⊢
    rw [Nat.mod_eq_of_lt hv]
  · simp only [lengthOf, if_neg hn] at hv ⊢
    rw [Nat.mod_eq_of_lt hv]

/-- A signed integer of 64 bits as the unsigned one with the same bits. -/
def unsigned (n : Int) : Nat :=
  (if n < 0 then n + 0x10000000000000000 else n).toNat

theorem signed_unsigned {n : Int} (hlow : -0x8000000000000000 ≤ n) (hhigh : n < 0x8000000000000000) :
    signed (unsigned n) = n := by
  unfold signed unsigned
  split <;> split <;> omega

end FirstRow.Store.Varint
