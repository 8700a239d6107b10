import FirstRow.Binary64.Rounding
import Mathlib.Tactic

/-!
# The numbers that round to a binary64 number

A finite number other than zero has an interval of rationals around it: up to the middle between it and each of its
neighbours, the middles included exactly if its significand is even. `ofRatio` and `ofDecimal` give the number for
every quotient and every decimal in its interval.

A quotient of the interval is rounded on the grid of the number, except just below a power of two, where the grid is
one finer; there the rounded quotient is the power of two itself, and the bits of the magnitude are the same.
-/
namespace FirstRow.Binary64

theorem two_zpow_pos (e : Int) : (0 : ℚ) < 2 ^ e := zpow_pos (by norm_num) e

theorem ten_zpow_pos (e : Int) : (0 : ℚ) < 10 ^ e := zpow_pos (by norm_num) e

/-- The size of a finite number. -/
def size (x : Binary64) : ℚ :=
  x.significand * 2 ^ x.exponent

/-- The part of the gap below a number that is its own, in units of the significand. -/
def reachBelow (x : Binary64) : ℚ :=
  if x.fractionField = 0 ∧ 1 < x.exponentField then 1 / 4 else 1 / 2

/-- The rationals that round to a positive number. -/
structure Near (x : Binary64) (v : ℚ) : Prop where
  low : (x.significand - x.reachBelow) * 2 ^ x.exponent ≤ v
  high : v ≤ (x.significand + 1 / 2) * 2 ^ x.exponent
  low_of_odd : x.significand % 2 = 1 → (x.significand - x.reachBelow) * 2 ^ x.exponent < v
  high_of_odd : x.significand % 2 = 1 → v < (x.significand + 1 / 2) * 2 ^ x.exponent

theorem reachBelow_le (x : Binary64) : x.reachBelow ≤ 1 / 2 := by
  unfold reachBelow
  split <;> norm_num

/-- What lies strictly inside the interval rounds to the number, whatever the parity of the significand. -/
theorem Near.of_lt {x : Binary64} {v : ℚ} (hl : (x.significand - x.reachBelow) * 2 ^ x.exponent < v)
    (hh : v < (x.significand + 1 / 2) * 2 ^ x.exponent) : x.Near v :=
  ⟨hl.le, hh.le, fun _ => hl, fun _ => hh⟩

theorem significand_lt (x : Binary64) : x.significand < 0x20000000000000 := by
  unfold significand fractionField
  split <;> omega

/-- A number with a leading bit fills the fifty-three bits. -/
theorem significand_ge {x : Binary64} (h : x.exponentField ≠ 0) : 0x10000000000000 ≤ x.significand := by
  unfold significand
  rw [if_neg h]
  omega

theorem exponent_of_field {x : Binary64} (h : x.exponentField ≠ 0) : x.exponent = x.exponentField - 1075 := by
  unfold exponent
  omega

theorem exponent_of_field_zero {x : Binary64} (h : x.exponentField = 0) : x.exponent = -1074 := by
  unfold exponent
  rw [h]
  rfl

theorem exponent_ge (x : Binary64) : -1074 ≤ x.exponent := by
  unfold exponent
  omega

theorem exponentField_lt_of_isFinite {x : Binary64} (h : x.isFinite = true) : x.exponentField < 2047 :=
  of_decide_eq_true h

/-- A finite number is no NaN. -/
theorem isNaN_of_isFinite {x : Binary64} (h : x.isFinite = true) : x.isNaN = false := by
  have := exponentField_lt_of_isFinite h
  simp only [isNaN, Bool.and_eq_false_iff, decide_eq_false_iff_not]
  exact .inl (by omega)

theorem exponent_le {x : Binary64} (h : x.isFinite = true) : x.exponent ≤ 971 := by
  have := exponentField_lt_of_isFinite h
  unfold exponent
  omega

/-- The bits without the sign are the significand on the grid of the exponent. -/
theorem magnitude_eq (x : Binary64) :
    (x.exponent + 1074).toNat * 0x10000000000000 + x.significand = x.bits.toNat % 0x8000000000000000 := by
  unfold exponent significand exponentField fractionField
  split <;> omega

theorem magnitude_lt {x : Binary64} (h : x.isFinite = true) :
    x.bits.toNat % 0x8000000000000000 < 0x7FF0000000000000 := by
  have := exponentField_lt_of_isFinite h
  unfold exponentField at this
  omega

/-- A number is its sign and the bits of its magnitude. -/
theorem ofMagnitude_magnitude (x : Binary64) : ofMagnitude x.negative (x.bits.toNat % 0x8000000000000000) = x := by
  have hlt := x.bits.toNat_lt
  have hbits : ((if x.negative = true then 0x8000000000000000 else 0) + x.bits.toNat % 0x8000000000000000)
      = x.bits.toNat := by
    unfold negative
    split <;> next h => simp only [decide_eq_true_eq, not_le] at h; omega
  rw [ofMagnitude, hbits]
  exact congrArg Binary64.mk (by simp)

theorem ofMagnitude_of_significand_zero {x : Binary64} (h : x.significand = 0) : ofMagnitude x.negative 0 = x := by
  have hf : x.exponentField = 0 := by
    by_contra hne
    have := significand_ge hne
    omega
  have hm := x.magnitude_eq
  rw [exponent_of_field_zero hf, h] at hm
  conv_rhs => rw [← x.ofMagnitude_magnitude, ← hm]
  rfl

/-- The whole number within a half of a quotient, or exactly a half away and even, is what the quotient rounds to. -/
theorem roundDiv_eq {num den m : Nat} (hden : 0 < den) (hlow : (m : ℚ) - 1 / 2 ≤ num / den)
    (hhigh : (num : ℚ) / den ≤ m + 1 / 2)
    (hodd : m % 2 = 1 → (m : ℚ) - 1 / 2 < num / den ∧ (num : ℚ) / den < m + 1 / 2) : roundDiv num den = m := by
  have hpos : (0 : ℚ) < den := by exact_mod_cast hden
  have low_iff : ((m : ℚ) - 1 / 2 ≤ num / den) ↔ 2 * (m * den) ≤ 2 * num + den := by
    rw [le_div_iff₀ hpos, ← Nat.cast_le (α := ℚ)]
    push_cast
    constructor <;> intro h <;> linarith
  have high_iff : ((num : ℚ) / den ≤ m + 1 / 2) ↔ 2 * num ≤ 2 * (m * den) + den := by
    rw [div_le_iff₀ hpos, ← Nat.cast_le (α := ℚ)]
    push_cast
    constructor <;> intro h <;> linarith
  have low_lt_iff : ((m : ℚ) - 1 / 2 < num / den) ↔ 2 * (m * den) < 2 * num + den := by
    rw [lt_div_iff₀ hpos, ← Nat.cast_lt (α := ℚ)]
    push_cast
    constructor <;> intro h <;> linarith
  have high_lt_iff : ((num : ℚ) / den < m + 1 / 2) ↔ 2 * num < 2 * (m * den) + den := by
    rw [div_lt_iff₀ hpos, ← Nat.cast_lt (α := ℚ)]
    push_cast
    constructor <;> intro h <;> linarith
  rw [low_iff] at hlow
  rw [high_iff] at hhigh
  rw [low_lt_iff, high_lt_iff] at hodd
  have hdiv := Nat.div_add_mod num den
  have hmod := Nat.mod_lt num hden
  unfold roundDiv
  simp only
  generalize num / den = q at hdiv ⊢
  generalize num % den = r at hdiv hmod ⊢
  have hle : q ≤ m := by
    by_contra hlt
    have : (m + 1) * den ≤ q * den := Nat.mul_le_mul_right _ (by omega)
    rw [Nat.add_mul, Nat.mul_comm q] at this
    omega
  have hge : m ≤ q + 1 := by
    by_contra hlt
    have : (q + 2) * den ≤ m * den := Nat.mul_le_mul_right _ (by omega)
    rw [Nat.add_mul, Nat.mul_comm q] at this
    omega
  rcases Nat.eq_or_lt_of_le hle with rfl | hlt
  · rw [Nat.mul_comm q] at hlow hhigh hodd
    split_ifs <;> omega
  · obtain rfl : m = q + 1 := by omega
    rw [Nat.add_mul, Nat.mul_comm q] at hlow hhigh hodd
    split_ifs <;> omega

/-- Shifting both parts moves a quotient along the powers of two. -/
theorem shift_div (num den : Nat) (e : Int) :
    ((if 0 ≤ e then num else num <<< (-e).toNat : Nat) : ℚ) / (if 0 ≤ e then den <<< e.toNat else den : Nat)
      = num / den / 2 ^ e := by
  split
  · next h =>
    obtain ⟨n, rfl⟩ := Int.eq_ofNat_of_zero_le h
    rw [Int.toNat_natCast, Nat.shiftLeft_eq, zpow_natCast, div_div]
    push_cast
    rfl
  · next h =>
    obtain ⟨n, hn⟩ : ∃ n : Nat, e = -n := ⟨(-e).toNat, by omega⟩
    rw [hn, neg_neg, Int.toNat_natCast, Nat.shiftLeft_eq, zpow_neg, zpow_natCast]
    push_cast
    field_simp

theorem powLe_iff {s : Int} {num den : Nat} (hden : 0 < den) :
    powLe s num den = true ↔ (2 : ℚ) ^ s ≤ num / den := by
  have hpos : (0 : ℚ) < den := by exact_mod_cast hden
  rw [le_div_iff₀ hpos]
  unfold powLe
  split
  · next h =>
    obtain ⟨n, rfl⟩ := Int.eq_ofNat_of_zero_le h
    rw [decide_eq_true_eq, Int.toNat_natCast, Nat.shiftLeft_eq, zpow_natCast, Nat.mul_comm]
    exact_mod_cast Iff.rfl
  · next h =>
    obtain ⟨n, hn⟩ : ∃ n : Nat, s = -n := ⟨(-s).toNat, by omega⟩
    rw [decide_eq_true_eq, hn, neg_neg, Int.toNat_natCast, Nat.shiftLeft_eq, zpow_neg, zpow_natCast,
      inv_mul_le_iff₀ (by positivity), mul_comm ((2 : ℚ) ^ n)]
    exact_mod_cast Iff.rfl

/-- The grid of a quotient is fifty-two places below its leading bit, or the least one. -/
theorem gridExponent_eq {num den : Nat} (hnum : 0 < num) (hden : 0 < den) :
    ∃ top : Int, (2 : ℚ) ^ top ≤ num / den ∧ (num : ℚ) / den < 2 ^ (top + 1) ∧
      gridExponent num den = max (top - 52) (-1074) := by
  have hpos : (0 : ℚ) < den := by exact_mod_cast hden
  have hlow (n : Nat) (hn : 0 < n) : (2 : ℚ) ^ (n.log2 : Int) ≤ n := by
    rw [zpow_natCast]
    exact_mod_cast Nat.log2_self_le (by omega)
  have hhigh (n : Nat) : (n : ℚ) < 2 ^ ((n.log2 : Int) + 1) := by
    have := Nat.lt_log2_self (n := n)
    rw [show (n.log2 : Int) + 1 = ((n.log2 + 1 : Nat) : Int) by omega, zpow_natCast]
    exact_mod_cast this
  have hup : (num : ℚ) / den < 2 ^ ((num.log2 : Int) - den.log2 + 1) := by
    rw [div_lt_iff₀ hpos]
    calc (num : ℚ) < 2 ^ ((num.log2 : Int) + 1) := hhigh num
      _ = 2 ^ ((num.log2 : Int) - den.log2 + 1) * 2 ^ (den.log2 : Int) := by
        rw [← zpow_add₀ (by norm_num)]
        congr 1
        omega
      _ ≤ _ := mul_le_mul_of_nonneg_left (hlow den hden) (two_zpow_pos _).le
  unfold gridExponent
  simp only
  split
  · next h => exact ⟨_, (powLe_iff hden).mp h, hup, rfl⟩
  · next h =>
    rw [powLe_iff hden, not_le] at h
    refine ⟨_, ?_, by rwa [Int.sub_add_cancel], rfl⟩
    rw [le_div_iff₀ hpos]
    calc (2 : ℚ) ^ ((num.log2 : Int) - den.log2 - 1) * den
        ≤ 2 ^ ((num.log2 : Int) - den.log2 - 1) * 2 ^ ((den.log2 : Int) + 1) :=
          mul_le_mul_of_nonneg_left (hhigh den).le (two_zpow_pos _).le
      _ = 2 ^ (num.log2 : Int) := by
        rw [← zpow_add₀ (by norm_num)]
        congr 1
        omega
      _ ≤ num := hlow num hnum

/-- Near a number the grid is that of the number, except just below a power of two. -/
theorem grid_of_near {x : Binary64} {v : ℚ} {top : Int} (hx : x.Near v) (hlow : (2 : ℚ) ^ top ≤ v)
    (hhigh : v < 2 ^ (top + 1)) :
    max (top - 52) (-1074) = x.exponent ∨
      x.significand = 0x10000000000000 ∧ 1 < x.exponentField ∧ max (top - 52) (-1074) = x.exponent - 1 ∧
        v < 0x10000000000000 * 2 ^ x.exponent := by
  have hp := two_zpow_pos x.exponent
  have hscale (n : Int) : (2 : ℚ) ^ (n + x.exponent) = 2 ^ n * 2 ^ x.exponent := zpow_add₀ (by norm_num) _ _
  have hm : (x.significand : ℚ) ≤ 0x20000000000000 - 1 := by
    have : x.significand + 1 ≤ 0x20000000000000 := x.significand_lt
    have : (x.significand : ℚ) + 1 ≤ 0x20000000000000 := by exact_mod_cast this
    linarith
  have htop : top - 52 ≤ x.exponent := by
    have : (2 : ℚ) ^ top < 2 ^ (53 + x.exponent) := by
      rw [hscale]
      calc (2 : ℚ) ^ top ≤ v := hlow
        _ ≤ (x.significand + 1 / 2) * 2 ^ x.exponent := hx.high
        _ < 2 ^ (53 : Int) * 2 ^ x.exponent := by
          refine mul_lt_mul_of_pos_right ?_ hp
          norm_num
          linarith
    have := (zpow_lt_zpow_iff_right₀ (by norm_num)).mp this
    omega
  rcases Int.lt_or_eq_of_le x.exponent_ge with he | he
  swap
  · exact .inl (by omega)
  have hf : 1 < x.exponentField := by
    unfold exponent at he
    omega
  have hge := significand_ge (x := x) (by omega)
  by_cases hfill : 0x10000000000000 * 2 ^ x.exponent ≤ v
  · have : (2 : ℚ) ^ (52 + x.exponent) < 2 ^ (top + 1) := by
      rw [hscale]
      norm_num
      exact lt_of_le_of_lt hfill hhigh
    have := (zpow_lt_zpow_iff_right₀ (by norm_num)).mp this
    exact .inl (by omega)
  · rw [not_le] at hfill
    have hlt := lt_of_mul_lt_mul_right (lt_of_le_of_lt hx.low hfill) hp.le
    have hreach := x.reachBelow_le
    have hpow : x.significand = 0x10000000000000 := by
      have : (x.significand : ℚ) < 0x10000000000000 + 1 := by linarith
      have : x.significand < 0x10000000000000 + 1 := by exact_mod_cast this
      omega
    have : (2 : ℚ) ^ (51 + x.exponent) < 2 ^ (top + 1) := by
      rw [hscale]
      refine lt_of_le_of_lt ?_ (lt_of_le_of_lt hx.low hhigh)
      refine mul_le_mul_of_nonneg_right ?_ hp.le
      rw [hpow]
      norm_num
      linarith
    have := (zpow_lt_zpow_iff_right₀ (by norm_num)).mp this
    have : (2 : ℚ) ^ top < 2 ^ (52 + x.exponent) := by
      rw [hscale]
      norm_num
      exact lt_of_le_of_lt hlow hfill
    have := (zpow_lt_zpow_iff_right₀ (by norm_num)).mp this
    exact .inr ⟨hpow, hf, by omega, hfill⟩

/-- The number for a quotient near it. -/
theorem ofRatio_of_near {x : Binary64} {num den : Nat} (hfin : x.isFinite = true) (hnum : 0 < num) (hden : 0 < den)
    (hx : x.Near (num / den)) : ofRatio x.negative num den = x := by
  obtain ⟨top, hlow, hhigh, hgrid⟩ := gridExponent_eq hnum hden
  have hround : (if 0 ≤ gridExponent num den then roundDiv num (den <<< (gridExponent num den).toNat)
      else roundDiv (num <<< (-gridExponent num den).toNat) den)
        = roundDiv (if 0 ≤ gridExponent num den then num else num <<< (-gridExponent num den).toNat)
          (if 0 ≤ gridExponent num den then den <<< (gridExponent num den).toNat else den) := by
    split <;> rfl
  have hden' (e : Int) : 0 < (if 0 ≤ e then den <<< e.toNat else den) := by
    split
    · rw [Nat.shiftLeft_eq]
      positivity
    · exact hden
  have hp := two_zpow_pos x.exponent
  have hmag : (gridExponent num den + 1074).toNat * 0x10000000000000
      + roundDiv (if 0 ≤ gridExponent num den then num else num <<< (-gridExponent num den).toNat)
          (if 0 ≤ gridExponent num den then den <<< (gridExponent num den).toNat else den)
        = x.bits.toNat % 0x8000000000000000 := by
    rcases grid_of_near hx hlow hhigh with hg | ⟨hpow, hf, hg, hfill⟩
    · rw [hgrid, hg, roundDiv_eq (m := x.significand) (hden' _), x.magnitude_eq]
      all_goals rw [shift_div]
      · rw [le_div_iff₀ hp]
        refine le_trans (mul_le_mul_of_nonneg_right ?_ hp.le) hx.low
        linarith [x.reachBelow_le]
      · rw [div_le_iff₀ hp]
        exact hx.high
      · intro hodd
        rw [lt_div_iff₀ hp, div_lt_iff₀ hp]
        refine ⟨lt_of_le_of_lt (mul_le_mul_of_nonneg_right ?_ hp.le) (hx.low_of_odd hodd), hx.high_of_odd hodd⟩
        linarith [x.reachBelow_le]
    · -- the grid is twice as fine, and the quotient is rounded up to the power of two
      have hhalf : (2 : ℚ) ^ (x.exponent - 1) = 2 ^ x.exponent / 2 := by
        rw [zpow_sub_one₀ (by norm_num)]
        ring
      have he := x.exponent_ge
      rw [hgrid, hg, roundDiv_eq (m := 0x20000000000000) (hden' _), ← x.magnitude_eq, hpow]
      · have := exponent_of_field (x := x) (by omega)
        omega
      · rw [shift_div, hhalf, le_div_iff₀ (by positivity)]
        have := hx.low
        have hquarter : x.reachBelow = 1 / 4 := by
          have hm := hpow
          unfold significand at hm
          rw [if_neg (by omega)] at hm
          unfold reachBelow
          rw [if_pos ⟨by omega, hf⟩]
        rw [hpow, hquarter] at this
        push_cast at this ⊢
        linarith
      · rw [shift_div, hhalf, div_le_iff₀ (by positivity)]
        push_cast
        linarith
      · intro hodd
        norm_num at hodd
  unfold ofRatio
  rw [if_neg (by omega)]
  simp only
  rw [hround, hmag, if_pos (magnitude_lt hfin), ofMagnitude_magnitude]

theorem two_pow_lt_ten_pow : 0x20000000000000 * 2 ^ 971 < 10 ^ 401 := by decide +kernel

theorem two_pow_le_ten_pow : 2 ^ 1075 ≤ 10 ^ 400 := by decide +kernel

/-- Beyond the first cut a decimal is greater than every finite number. -/
theorem Near.power_le {x : Binary64} {m : Nat} {e : Int} (hfin : x.isFinite = true) (hm : 0 < m)
    (hx : x.Near (m * 10 ^ e)) : e ≤ 400 := by
  by_contra he
  have hone : (1 : ℚ) ≤ m := by exact_mod_cast hm
  have hsig : (x.significand : ℚ) + 1 / 2 ≤ 0x20000000000000 := by
    have : (x.significand : ℚ) + 1 ≤ 0x20000000000000 := by exact_mod_cast x.significand_lt
    linarith
  have hlt : (10 : ℚ) ^ (401 : Int) < 10 ^ (401 : Int) := by
    calc (10 : ℚ) ^ (401 : Int) ≤ 10 ^ e := zpow_le_zpow_right₀ (by norm_num) (by omega)
      _ ≤ m * 10 ^ e := le_mul_of_one_le_left (ten_zpow_pos e).le hone
      _ ≤ (x.significand + 1 / 2) * 2 ^ x.exponent := hx.high
      _ ≤ 0x20000000000000 * 2 ^ x.exponent := mul_le_mul_of_nonneg_right hsig (two_zpow_pos _).le
      _ ≤ 0x20000000000000 * 2 ^ (971 : Int) :=
        mul_le_mul_of_nonneg_left (zpow_le_zpow_right₀ (by norm_num) (exponent_le hfin)) (by norm_num)
      _ < 10 ^ (401 : Int) := by
        rw [show (971 : Int) = (971 : Nat) from rfl, show (401 : Int) = (401 : Nat) from rfl, zpow_natCast, zpow_natCast]
        exact_mod_cast two_pow_lt_ten_pow
  exact lt_irrefl _ hlt

/-- Below the second cut a decimal is nearer to zero than every other number. -/
theorem Near.le_power {x : Binary64} {m : Nat} {e : Int} (hsig : x.significand ≠ 0) (hx : x.Near (m * 10 ^ e)) :
    -400 - 4 * (m.log2 + 1 : Nat) ≤ e := by
  by_contra he
  rw [not_le] at he
  have hone : (1 : ℚ) ≤ x.significand := by exact_mod_cast Nat.one_le_iff_ne_zero.mpr hsig
  have hm : (m : ℚ) ≤ 2 ^ (m.log2 + 1) := by exact_mod_cast (Nat.lt_log2_self (n := m)).le
  have hlt : (2 : ℚ) ^ (-1075 : Int) < 2 ^ (-1075 : Int) := by
    calc (2 : ℚ) ^ (-1075 : Int) = 1 / 2 * 2 ^ (-1074 : Int) := by
          rw [show (-1074 : Int) = -1075 + 1 by norm_num, zpow_add_one₀ (by norm_num)]
          ring
      _ ≤ (x.significand - x.reachBelow) * 2 ^ x.exponent := by
        refine mul_le_mul ?_ (zpow_le_zpow_right₀ (by norm_num) x.exponent_ge) (two_zpow_pos _).le ?_ <;>
          linarith [x.reachBelow_le]
      _ ≤ m * 10 ^ e := hx.low
      _ ≤ 2 ^ (m.log2 + 1) * 10 ^ e := mul_le_mul_of_nonneg_right hm (ten_zpow_pos e).le
      _ ≤ 10 ^ (m.log2 + 1) * 10 ^ e :=
        mul_le_mul_of_nonneg_right (pow_le_pow_left₀ (by norm_num) (by norm_num) _) (ten_zpow_pos e).le
      _ = 10 ^ (((m.log2 + 1 : Nat) : Int) + e) := by
        rw [zpow_add₀ (by norm_num), zpow_natCast]
      _ < 10 ^ (-400 : Int) := zpow_lt_zpow_right₀ (by norm_num) (by omega)
      _ ≤ 2 ^ (-1075 : Int) := by
        rw [show (-400 : Int) = -(400 : Nat) from rfl, show (-1075 : Int) = -(1075 : Nat) from rfl, zpow_neg, zpow_neg,
          zpow_natCast, zpow_natCast]
        exact inv_anti₀ (by positivity) (by exact_mod_cast two_pow_le_ten_pow)
  exact lt_irrefl _ hlt

/-- The number for a decimal near it. -/
theorem ofDecimal_of_near {x : Binary64} {m : Nat} {e : Int} (hfin : x.isFinite = true) (hsig : x.significand ≠ 0)
    (hm : 0 < m) (hx : x.Near (m * 10 ^ e)) : ofDecimal x.negative m e = x := by
  have hhigh := hx.power_le hfin hm
  have hlow := hx.le_power hsig
  unfold ofDecimal
  rw [if_neg (by omega), if_neg (by omega), if_neg (by omega)]
  split
  · next h =>
    obtain ⟨n, rfl⟩ := Int.eq_ofNat_of_zero_le h
    refine ofRatio_of_near hfin (Nat.mul_pos hm (Nat.pow_pos (by decide))) (by decide) ?_
    rw [Int.toNat_natCast]
    simpa using hx
  · next h =>
    obtain ⟨n, rfl⟩ : ∃ n : Nat, e = -n := ⟨(-e).toNat, by omega⟩
    refine ofRatio_of_near hfin hm (Nat.pow_pos (by decide)) ?_
    rw [neg_neg, Int.toNat_natCast]
    simpa [div_eq_mul_inv] using hx

/-- Zero, of either sign, for a decimal without value. -/
theorem ofDecimal_zero {x : Binary64} (hsig : x.significand = 0) (e : Int) : ofDecimal x.negative 0 e = x := by
  rw [ofDecimal, if_pos rfl, ofMagnitude_of_significand_zero hsig]

end FirstRow.Binary64
