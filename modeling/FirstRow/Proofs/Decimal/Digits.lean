import FirstRow.Binary64.Shortest
import Mathlib.Algebra.Order.Field.Power
import Mathlib.Data.List.TakeWhile
import Mathlib.Tactic.IntervalCases
import Mathlib.Tactic.Ring

/-!
# Digits and their value

The digits of a number write that number, and only zero begins with the digit zero. Digits that are appended shift the
value of those before them, so zeros at the end can be traded for powers of ten.
-/
namespace FirstRow

namespace Decimal

theorem toNat_digitChar (d : Nat) : (digitChar d).toNat = 0x30 + d % 10 := by
  have h : d % 10 < 10 := Nat.mod_lt _ (by decide)
  unfold digitChar
  generalize d % 10 = k at h
  interval_cases k <;> rfl

@[simp] theorem digitValue_digitChar (d : Nat) : digitValue (digitChar d) = d % 10 := by
  rw [digitValue, toNat_digitChar, Nat.add_sub_cancel_left]

theorem isDigit_iff (c : Char) : isDigit c = true ↔ 0x30 ≤ c.toNat ∧ c.toNat ≤ 0x39 := by
  simp only [isDigit, Bool.and_eq_true, decide_eq_true_eq, Char.le_def, UInt32.le_iff_toNat_le]
  rfl

@[simp] theorem isDigit_digitChar (d : Nat) : isDigit (digitChar d) = true := by
  rw [isDigit_iff, toNat_digitChar]
  omega

@[simp] theorem digitValue_zero : digitValue '0' = 0 := rfl

@[simp] theorem value_nil : value [] = 0 := rfl

/-- Digits shift those before them. -/
theorem foldl_value (ds : List Char) (n : Nat) :
    ds.foldl (fun n c => 10 * n + digitValue c) n = n * 10 ^ ds.length + value ds := by
  induction ds generalizing n with
  | nil => simp
  | cons d ds ih =>
    rw [value, List.foldl_cons, List.foldl_cons, ih, ih (10 * 0 + digitValue d), List.length_cons]
    ring

theorem value_append (as bs : List Char) : value (as ++ bs) = value as * 10 ^ bs.length + value bs := by
  rw [value, List.foldl_append, foldl_value]
  rfl

theorem value_singleton (d : Char) : value [d] = digitValue d := by
  simp [value]

@[simp] theorem value_replicate_zero (n : Nat) : value (List.replicate n '0') = 0 := by
  induction n with
  | zero => rfl
  | succ n ih => rw [List.replicate_succ', value_append, ih, value_singleton, digitValue_zero, Nat.zero_mul]

/-- The digits of a number write it. -/
@[simp] theorem value_digits (n : Nat) : value (digits n) = n := by
  induction n using digits.induct with
  | case1 n h =>
    rw [digits, if_pos h, value_singleton, digitValue_digitChar, Nat.mod_eq_of_lt h]
  | case2 n h ih =>
    rw [digits, if_neg h, value_append, ih, value_singleton, digitValue_digitChar, List.length_singleton]
    omega

theorem digits_all_isDigit (n : Nat) : ∀ c ∈ digits n, isDigit c = true := by
  induction n using digits.induct with
  | case1 n h => rw [digits, if_pos h]; simp
  | case2 n h ih =>
    rw [digits, if_neg h]
    intro c hc
    rcases List.mem_append.mp hc with hc | hc
    · exact ih c hc
    · rw [List.mem_singleton.mp hc, isDigit_digitChar]

/-- The digits are those of the number in base ten. -/
theorem digits_eq_toDigits (n : Nat) : digits n = Nat.toDigits 10 n := by
  have hchar (d : Nat) : digitChar d = (d % 10).digitChar := by
    have h : d % 10 < 10 := Nat.mod_lt _ (by decide)
    unfold digitChar
    generalize d % 10 = k at h
    interval_cases k <;> rfl
  induction n using digits.induct with
  | case1 n h => rw [digits, if_pos h, Nat.toDigits_of_lt_base h, hchar, Nat.mod_eq_of_lt h]
  | case2 n h ih =>
    rw [digits, if_neg h, ih, hchar, Nat.toDigits_of_base_le (n := n) (by decide) (by omega)]

theorem digits_ne_nil (n : Nat) : digits n ≠ [] := by
  rw [digits]
  split <;> simp

theorem digits_zero : digits 0 = ['0'] := by
  rw [digits]
  rfl

/-- The digits of a positive number do not begin with zero. -/
theorem head?_digits_ne_zero {n : Nat} (hn : 0 < n) : (digits n).head? ≠ some '0' := by
  induction n using digits.induct with
  | case1 n h =>
    rw [digits, if_pos h, List.head?_cons, ne_eq, Option.some.injEq]
    intro hc
    have := congrArg digitValue hc
    rw [digitValue_digitChar, digitValue_zero, Nat.mod_eq_of_lt h] at this
    omega
  | case2 n h ih =>
    rw [digits, if_neg h, List.head?_append]
    cases hd : digits (n / 10) with
    | nil => exact absurd hd (digits_ne_nil _)
    | cons d ds =>
      rw [hd] at ih
      exact ih (by omega)

theorem digitValue_lt {c : Char} (h : isDigit c = true) : digitValue c < 10 := by
  rw [isDigit_iff] at h
  unfold digitValue
  omega

theorem digitValue_pos {c : Char} (h : isDigit c = true) (hne : c ≠ '0') : 0 < digitValue c := by
  rw [isDigit_iff] at h
  have : c.toNat ≠ 0x30 := fun hc => hne (Char.toNat_inj.mp hc)
  unfold digitValue
  omega

/-- Digits write a number below the power of ten of their count. -/
theorem value_lt {ds : List Char} (h : ∀ c ∈ ds, isDigit c = true) : value ds < 10 ^ ds.length := by
  induction ds with
  | nil => simp
  | cons d ds ih =>
    have hd := digitValue_lt (h d (by simp))
    have hds := ih fun c hc => h c (List.mem_cons_of_mem d hc)
    have hle : digitValue d * 10 ^ ds.length ≤ 9 * 10 ^ ds.length := Nat.mul_le_mul_right _ (by omega)
    rw [← List.singleton_append, value_append, value_singleton, List.singleton_append, List.length_cons, Nat.pow_succ]
    omega

/-- Digits that do not begin with zero write a number of their count. -/
theorem pow_le_value {ds : List Char} (h : ∀ c ∈ ds, isDigit c = true) (hne : ds ≠ []) (hhead : ds.head? ≠ some '0') :
    10 ^ (ds.length - 1) ≤ value ds := by
  cases ds with
  | nil => exact absurd rfl hne
  | cons d ds =>
    have hd : 1 ≤ digitValue d := digitValue_pos (h d (by simp)) (by simpa using hhead)
    have hle : 1 * 10 ^ ds.length ≤ digitValue d * 10 ^ ds.length := Nat.mul_le_mul_right _ hd
    rw [← List.singleton_append, value_append, value_singleton, List.singleton_append, List.length_cons,
      Nat.add_sub_cancel]
    omega

theorem lt_pow_length_digits (n : Nat) : n < 10 ^ (digits n).length := by
  have h := value_lt (digits_all_isDigit n)
  rwa [value_digits] at h

theorem length_digits_le {n m : Nat} (hm : 0 < m) (h : n < 10 ^ m) : (digits n).length ≤ m := by
  rcases Nat.eq_zero_or_pos n with rfl | hn
  · rw [digits_zero]
    exact hm
  · have hle := pow_le_value (digits_all_isDigit n) (digits_ne_nil n) (head?_digits_ne_zero hn)
    rw [value_digits] at hle
    have := (Nat.pow_lt_pow_iff_right (a := 10) (by decide)).mp (lt_of_le_of_lt hle h)
    omega

theorem digits_mul_ten {n : Nat} (hn : 0 < n) : digits (10 * n) = digits n ++ ['0'] := by
  have hzero : digitChar (10 * n) = '0' := by
    unfold digitChar
    rw [Nat.mul_mod_right]
  rw [digits, if_neg (by omega), Nat.mul_div_cancel_left n (by decide), hzero]

end Decimal

namespace Binary64

/-- What is dropped at the end of digits are zeros. -/
theorem dropZeros_append (ds : List Char) : ∃ n, ds = dropZeros ds ++ List.replicate n '0' := by
  refine ⟨(ds.reverse.takeWhile (· == '0')).length, ?_⟩
  have hz : ∀ c ∈ ds.reverse.takeWhile (· == '0'), c = '0' := by
    intro c hc
    simpa using List.mem_takeWhile_imp hc
  rw [← List.reverse_inj, dropZeros, List.reverse_append, List.reverse_reverse, List.reverse_replicate,
    ← List.eq_replicate_of_mem hz, List.takeWhile_append_dropWhile]

theorem dropZeros_append_zero (ds : List Char) : dropZeros (ds ++ ['0']) = dropZeros ds := by
  simp [dropZeros]

theorem length_dropZeros_le (ds : List Char) : (dropZeros ds).length ≤ ds.length := by
  rw [dropZeros, List.length_reverse, ← ds.length_reverse]
  exact (List.dropWhile_sublist _).length_le

/-- Up to a power of ten a number has no more digits than that, the zeros at the end not counted. -/
theorem length_dropZeros_digits_le {n m : Nat} (hm : 0 < m) (h : n ≤ 10 ^ m) :
    (dropZeros (Decimal.digits n)).length ≤ m := by
  rcases Nat.lt_or_eq_of_le h with hlt | rfl
  · exact (length_dropZeros_le _).trans (Decimal.length_digits_le hm hlt)
  · have hone : dropZeros (Decimal.digits (10 ^ m)) = dropZeros (Decimal.digits 1) := by
      clear hm h
      induction m with
      | zero => rfl
      | succ m ih =>
        rw [Nat.pow_succ, Nat.mul_comm, Decimal.digits_mul_ten (Nat.pow_pos (by decide)), dropZeros_append_zero, ih]
    rw [hone]
    exact (length_dropZeros_le _).trans (Decimal.length_digits_le hm (Nat.one_lt_pow hm.ne' (by decide)))

/-- Without the zeros at the end the digits write the same number, scaled by powers of ten. -/
theorem value_dropZeros (ds : List Char) :
    Decimal.value ds = Decimal.value (dropZeros ds) * 10 ^ (ds.length - (dropZeros ds).length) := by
  obtain ⟨n, hn⟩ := dropZeros_append ds
  have hlen : ds.length - (dropZeros ds).length = n := by
    have := congrArg List.length hn
    rw [List.length_append, List.length_replicate] at this
    omega
  rw [hlen]
  conv_lhs => rw [hn, Decimal.value_append, Decimal.value_replicate_zero, List.length_replicate, Nat.add_zero]

end Binary64
end FirstRow
