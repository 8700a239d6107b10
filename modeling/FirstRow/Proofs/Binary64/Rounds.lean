import FirstRow.Proofs.Binary64.Nearest

/-!
# Rounding to the nearest number, ties to even

`Rounds` says what rounding is without saying how it is done: no number is nearer, and of two numbers that are equally
near the one with the even significand is taken. Infinity takes part with the size that its bits would have, which is
the power of two after the greatest finite number.

The magnitude of a number, its bits without the sign, orders the numbers as their sizes do. So the neighbours of a
number are those of the next magnitudes, what lies between them and the number is the interval `Near`, and neighbours
differ in the parity of their significands.
-/
namespace FirstRow.Binary64

/-- The bits without the sign. -/
def magnitude (x : Binary64) : Nat :=
  x.bits.toNat % 0x8000000000000000

/-- The number that a decimal of the given sign and size is rounded to. -/
structure Rounds (negative : Bool) (v : ℚ) (x : Binary64) : Prop where
  sign : x.negative = negative
  isNumber : x.isNaN = false
  nearest : ∀ y : Binary64, y.isNaN = false → |x.size - v| ≤ |y.size - v|
  even : ∀ y : Binary64, y.isNaN = false → y.size ≠ x.size → |y.size - v| = |x.size - v| → x.significand % 2 = 0

/-! ## Magnitudes -/

theorem magnitude_lt_of_isFinite {x : Binary64} (h : x.isFinite = true) : x.magnitude < 0x7FF0000000000000 :=
  magnitude_lt h

theorem isNaN_eq_false_iff (x : Binary64) : x.isNaN = false ↔ x.magnitude ≤ 0x7FF0000000000000 := by
  unfold isNaN magnitude exponentField fractionField
  rw [Bool.and_eq_false_iff, decide_eq_false_iff_not, decide_eq_false_iff_not]
  omega

/-- The exponent counted from the least one. -/
def grade (x : Binary64) : Nat :=
  (x.exponent + 1074).toNat

theorem exponent_eq_grade (x : Binary64) : x.exponent = x.grade - 1074 := by
  have := x.exponent_ge
  unfold grade
  omega

/-- The magnitude is the significand on the grid of the exponent. -/
theorem magnitude_eq_grade (x : Binary64) : x.magnitude = x.grade * 0x10000000000000 + x.significand :=
  x.magnitude_eq.symm

/-- Only the least grade has numbers without the leading bit. -/
theorem significand_ge_of_grade {x : Binary64} (h : 0 < x.grade) : 0x10000000000000 ≤ x.significand := by
  refine significand_ge ?_
  intro hfield
  have := x.exponent_eq_grade
  rw [exponent_of_field_zero hfield] at this
  omega

theorem size_eq_grade (x : Binary64) : x.size = x.significand * 2 ^ (x.grade - 1074 : ℤ) := by
  rw [size, exponent_eq_grade]

/-- The gap below a power of two is a half of the one above it, except at the least grade. -/
theorem reachBelow_eq (x : Binary64) :
    x.reachBelow = if x.significand = 0x10000000000000 ∧ 0 < x.grade then 1 / 4 else 1 / 2 := by
  have hiff : x.fractionField = 0 ∧ 1 < x.exponentField ↔ x.significand = 0x10000000000000 ∧ 0 < x.grade := by
    unfold grade exponent significand
    split <;> omega
  unfold reachBelow
  simp only [hiff]

/-- A number has one grade and one significand. -/
theorem grade_significand {x : Binary64} {e s : Nat} (h : x.magnitude = e * 0x10000000000000 + s)
    (hs : s < 0x20000000000000) (he : 0 < e → 0x10000000000000 ≤ s) : x.grade = e ∧ x.significand = s := by
  have hmagnitude := x.magnitude_eq_grade
  have hlt := x.significand_lt
  have hge := x.significand_ge_of_grade
  omega

/-- The numbers of the next grade are on a grid twice as wide. -/
theorem two_zpow_grade_succ (e : Nat) : (2 : ℚ) ^ ((e + 1 : Nat) - 1074 : ℤ) = 2 * 2 ^ (e - 1074 : ℤ) := by
  rw [← zpow_one_add₀ (by norm_num)]
  congr 1
  push_cast
  ring

theorem two_zpow_grade_le {a b : Nat} (h : a ≤ b) : (2 : ℚ) ^ (a - 1074 : ℤ) ≤ 2 ^ (b - 1074 : ℤ) :=
  zpow_le_zpow_right₀ (by norm_num) (by omega)

/-- Whatever has a greater magnitude is a full step greater. -/
theorem size_above {x y : Binary64} (h : x.magnitude < y.magnitude) :
    (x.significand + 1) * 2 ^ x.exponent ≤ y.size := by
  rw [magnitude_eq_grade, magnitude_eq_grade] at h
  have hx := x.significand_lt
  have hy := y.significand_lt
  rw [exponent_eq_grade, size_eq_grade]
  have hp := two_zpow_pos (x.grade - 1074)
  rcases Nat.lt_trichotomy x.grade y.grade with hlt | heq | hgt
  · have hy' := y.significand_ge_of_grade (by omega)
    have hs : (x.significand : ℚ) + 1 ≤ 0x20000000000000 := by exact_mod_cast hx
    have hs' : (0x10000000000000 : ℚ) ≤ y.significand := by exact_mod_cast hy'
    calc ((x.significand : ℚ) + 1) * 2 ^ (x.grade - 1074 : ℤ)
        ≤ 0x20000000000000 * 2 ^ (x.grade - 1074 : ℤ) := mul_le_mul_of_nonneg_right hs hp.le
      _ = 0x10000000000000 * 2 ^ ((x.grade + 1 : Nat) - 1074 : ℤ) := by
        rw [two_zpow_grade_succ]
        ring
      _ ≤ 0x10000000000000 * 2 ^ (y.grade - 1074 : ℤ) :=
        mul_le_mul_of_nonneg_left (two_zpow_grade_le hlt) (by norm_num)
      _ ≤ y.significand * 2 ^ (y.grade - 1074 : ℤ) := mul_le_mul_of_nonneg_right hs' (two_zpow_pos _).le
  · rw [← heq]
    have : x.significand + 1 ≤ y.significand := by omega
    exact mul_le_mul_of_nonneg_right (by exact_mod_cast this) hp.le
  · have := x.significand_ge_of_grade (by omega)
    omega

/-- Whatever has a smaller magnitude is smaller by the gap below. -/
theorem size_below {x y : Binary64} (h : y.magnitude < x.magnitude) :
    y.size ≤ (x.significand - 2 * x.reachBelow) * 2 ^ x.exponent := by
  rw [magnitude_eq_grade, magnitude_eq_grade] at h
  have hx := x.significand_lt
  have hy := y.significand_lt
  rw [exponent_eq_grade, size_eq_grade]
  have hp := two_zpow_pos (x.grade - 1074)
  have hreach := x.reachBelow_le
  rcases Nat.lt_trichotomy y.grade x.grade with hlt | heq | hgt
  · have hx' := x.significand_ge_of_grade (by omega)
    have hs : (y.significand : ℚ) ≤ 0x1FFFFFFFFFFFFF := by
      have : y.significand ≤ 0x1FFFFFFFFFFFFF := by omega
      exact_mod_cast this
    have hs' : (0x1FFFFFFFFFFFFF / 2 : ℚ) ≤ x.significand - 2 * x.reachBelow := by
      rw [reachBelow_eq]
      split
      · next hpow =>
        rw [hpow.1]
        norm_num
      · next hpow =>
        have : 0x10000000000001 ≤ x.significand := by omega
        have : (0x10000000000001 : ℚ) ≤ x.significand := by exact_mod_cast this
        linarith
    calc (y.significand : ℚ) * 2 ^ (y.grade - 1074 : ℤ)
        ≤ 0x1FFFFFFFFFFFFF * 2 ^ (y.grade - 1074 : ℤ) := mul_le_mul_of_nonneg_right hs (two_zpow_pos _).le
      _ = 0x1FFFFFFFFFFFFF / 2 * 2 ^ ((y.grade + 1 : Nat) - 1074 : ℤ) := by
        rw [two_zpow_grade_succ]
        ring
      _ ≤ 0x1FFFFFFFFFFFFF / 2 * 2 ^ (x.grade - 1074 : ℤ) :=
        mul_le_mul_of_nonneg_left (two_zpow_grade_le hlt) (by norm_num)
      _ ≤ _ := mul_le_mul_of_nonneg_right hs' hp.le
  · rw [heq]
    have : y.significand + 1 ≤ x.significand := by omega
    have : (y.significand : ℚ) + 1 ≤ x.significand := by exact_mod_cast this
    exact mul_le_mul_of_nonneg_right (by linarith) hp.le
  · have := y.significand_ge_of_grade (by omega)
    omega

theorem size_lt_of_magnitude_lt {x y : Binary64} (h : x.magnitude < y.magnitude) : x.size < y.size := by
  have hp := two_zpow_pos x.exponent
  refine lt_of_lt_of_le ?_ (size_above h)
  exact mul_lt_mul_of_pos_right (by linarith) hp

theorem magnitude_eq_of_size_eq {x y : Binary64} (h : x.size = y.size) : x.magnitude = y.magnitude := by
  rcases Nat.lt_trichotomy x.magnitude y.magnitude with hlt | heq | hgt
  · exact absurd h (size_lt_of_magnitude_lt hlt).ne
  · exact heq
  · exact absurd h (size_lt_of_magnitude_lt hgt).ne'

theorem size_eq_of_magnitude_eq {x y : Binary64} (h : x.magnitude = y.magnitude) : x.size = y.size := by
  obtain ⟨hgrade, hsignificand⟩ :=
    grade_significand (h.symm.trans x.magnitude_eq_grade) x.significand_lt x.significand_ge_of_grade
  rw [size_eq_grade, size_eq_grade, hgrade, hsignificand]

theorem eq_of_magnitude_eq {x y : Binary64} (hsign : x.negative = y.negative) (h : x.magnitude = y.magnitude) :
    x = y := by
  rw [← x.ofMagnitude_magnitude, ← y.ofMagnitude_magnitude, hsign]
  exact congrArg _ h

theorem exists_magnitude {m : Nat} (h : m < 0x8000000000000000) : ∃ y : Binary64, y.magnitude = m := by
  refine ⟨⟨m.toUInt64⟩, ?_⟩
  show m.toUInt64.toNat % 0x8000000000000000 = m
  rw [Nat.toUInt64, UInt64.toNat_ofNat']
  omega

/-- The neighbour above a finite number. -/
theorem exists_next {x : Binary64} (h : x.isFinite = true) :
    ∃ y : Binary64, y.isNaN = false ∧ y.magnitude = x.magnitude + 1 ∧
      y.size = (x.significand + 1) * 2 ^ x.exponent := by
  have hlt := magnitude_lt_of_isFinite h
  obtain ⟨y, hy⟩ := exists_magnitude (m := x.magnitude + 1) (by omega)
  refine ⟨y, (isNaN_eq_false_iff y).mpr (by omega), hy, ?_⟩
  have hx := x.significand_lt
  have hge := x.significand_ge_of_grade
  rw [magnitude_eq_grade x, Nat.add_assoc] at hy
  rw [exponent_eq_grade, size_eq_grade]
  by_cases hfull : x.significand + 1 = 0x20000000000000
  · obtain ⟨hgrade, hsignificand⟩ := grade_significand (x := y) (e := x.grade + 1) (s := 0x10000000000000)
      (by rw [hy, hfull]; ring) (by omega) (by omega)
    have hcast : (x.significand : ℚ) + 1 = 0x20000000000000 := by exact_mod_cast hfull
    rw [hgrade, hsignificand, hcast, two_zpow_grade_succ]
    push_cast
    ring
  · obtain ⟨hgrade, hsignificand⟩ := grade_significand hy (by omega) (by omega)
    rw [hgrade, hsignificand]
    push_cast
    ring

/-- The neighbour below a number other than zero. -/
theorem exists_previous {x : Binary64} (h : x.isFinite = true) (hsig : x.significand ≠ 0) :
    ∃ y : Binary64, y.isNaN = false ∧ y.magnitude + 1 = x.magnitude ∧
      y.size = (x.significand - 2 * x.reachBelow) * 2 ^ x.exponent := by
  have hlt := magnitude_lt_of_isFinite h
  have hx := x.significand_lt
  have hge := x.significand_ge_of_grade
  have hmagnitude := x.magnitude_eq_grade
  obtain ⟨y, hy⟩ := exists_magnitude (m := x.magnitude - 1) (by omega)
  refine ⟨y, (isNaN_eq_false_iff y).mpr (by omega), by omega, ?_⟩
  rw [exponent_eq_grade, size_eq_grade, reachBelow_eq]
  split
  · next hpow =>
    obtain ⟨e, he⟩ := Nat.exists_eq_add_of_lt hpow.2
    rw [Nat.zero_add] at he
    obtain ⟨hgrade, hsignificand⟩ := grade_significand (x := y) (e := e) (s := 0x1FFFFFFFFFFFFF)
      (by omega) (by omega) (by omega)
    rw [hgrade, hsignificand, hpow.1, he, two_zpow_grade_succ]
    push_cast
    ring
  · next hpow =>
    obtain ⟨hgrade, hsignificand⟩ := grade_significand (x := y) (e := x.grade) (s := x.significand - 1)
      (by omega) (by omega) (by omega)
    rw [hgrade, hsignificand, Nat.cast_sub (by omega)]
    push_cast
    ring

/-! ## Rounding -/

/-- One number at most is rounded to. -/
theorem Rounds.eq {negative : Bool} {v : ℚ} {x y : Binary64} (hx : Rounds negative v x) (hy : Rounds negative v y) :
    x = y := by
  have hsign : x.negative = y.negative := hx.sign.trans hy.sign.symm
  have hequal : |x.size - v| = |y.size - v| :=
    le_antisymm (hx.nearest y hy.isNumber) (hy.nearest x hx.isNumber)
  have hkey {x y : Binary64} (hx : Rounds negative v x) (hy : Rounds negative v y)
      (hequal : |x.size - v| = |y.size - v|) : ¬x.magnitude < y.magnitude := by
    intro hlt
    have hsize := size_lt_of_magnitude_lt hlt
    have hnumber := (isNaN_eq_false_iff y).mp hy.isNumber
    have hxe := hx.even y hy.isNumber hsize.ne' hequal.symm
    have hye := hy.even x hx.isNumber hsize.ne hequal
    -- the decimal is the middle, so that nothing between the two numbers is further from it
    have hmiddle : v = (x.size + y.size) / 2 := by
      rcases abs_eq_abs.mp hequal with h | h
      · exact absurd (sub_left_injective h) hsize.ne
      · linarith
    by_cases hnext : y.magnitude = x.magnitude + 1
    · rw [magnitude_eq_grade, magnitude_eq_grade] at hnext
      omega
    · obtain ⟨z, hz⟩ := exists_magnitude (m := x.magnitude + 1) (by omega)
      have hxz := size_lt_of_magnitude_lt (x := x) (y := z) (by omega)
      have hzy := size_lt_of_magnitude_lt (x := z) (y := y) (by omega)
      have hle := hx.nearest z ((isNaN_eq_false_iff z).mpr (by omega))
      rw [hmiddle, show x.size - (x.size + y.size) / 2 = -((y.size - x.size) / 2) by ring, abs_neg,
        abs_of_pos (by linarith)] at hle
      rcases le_abs.mp hle with h | h <;> linarith
  refine eq_of_magnitude_eq hsign ?_
  have hxy := hkey hx hy hequal
  have hyx := hkey hy hx hequal.symm
  omega

/-- A decimal is rounded to a finite number other than zero exactly if it lies in the interval of the number. -/
theorem rounds_iff_near {x : Binary64} (hfin : x.isFinite = true) (hsig : x.significand ≠ 0) (v : ℚ) :
    Rounds x.negative v x ↔ x.Near v := by
  have hp := two_zpow_pos x.exponent
  have hsize : x.size = x.significand * 2 ^ x.exponent := rfl
  constructor
  · intro h
    obtain ⟨y, hy, -, hysize⟩ := exists_next hfin
    obtain ⟨z, hz, hzlt, hzsize⟩ := exists_previous hfin hsig
    have hzx := size_lt_of_magnitude_lt (x := z) (y := x) (by omega)
    have hhigh : v ≤ (x.significand + 1 / 2) * 2 ^ x.exponent := by
      by_contra hgt
      have hle := h.nearest y hy
      rw [abs_sub_comm, abs_of_pos (by linarith)] at hle
      rcases le_abs.mp hle with h' | h' <;> linarith
    have hlow : (x.significand - x.reachBelow) * 2 ^ x.exponent ≤ v := by
      by_contra hlt
      have hle := h.nearest z hz
      rw [abs_of_pos (by linarith)] at hle
      rcases le_abs.mp hle with h' | h' <;> linarith
    refine ⟨hlow, hhigh, fun hodd => lt_of_le_of_ne hlow fun heq => ?_, fun hodd => lt_of_le_of_ne hhigh fun heq => ?_⟩
    · have := h.even z hz hzx.ne (by
        rw [← heq, abs_sub_comm, abs_of_nonneg (by linarith), abs_of_nonneg (by linarith)]
        linarith)
      omega
    · have := h.even y hy (by linarith) (by
        rw [heq, abs_of_nonneg (by linarith), abs_sub_comm, abs_of_nonneg (by linarith)]
        linarith)
      omega
  · intro h
    have hreach : 0 ≤ x.reachBelow * 2 ^ x.exponent := by
      refine mul_nonneg ?_ hp.le
      unfold reachBelow
      split <;> norm_num
    -- how far the number is from the decimal, against the half of each gap
    have hclose : -(x.reachBelow * 2 ^ x.exponent) ≤ v - x.size ∧ v - x.size ≤ 2 ^ x.exponent / 2 :=
      ⟨by linarith [h.low], by linarith [h.high]⟩
    have hfar (y : Binary64) (hmag : y.magnitude ≠ x.magnitude) :
        |x.size - v| ≤ |y.size - v| ∧ (|y.size - v| = |x.size - v| → x.significand % 2 = 0) := by
      rcases Nat.lt_or_gt_of_ne hmag with hlt | hgt
      · have hy := size_below hlt
        have hdist : |y.size - v| = v - y.size := by
          rw [abs_sub_comm, abs_of_nonneg (by linarith [h.low])]
        rw [hdist]
        refine ⟨abs_le.mpr ⟨by linarith [size_lt_of_magnitude_lt hlt], by linarith [h.low]⟩, fun heq => ?_⟩
        by_contra hodd
        have hlow := h.low_of_odd (by omega)
        rcases abs_choice (x.size - v) with h' | h' <;> linarith [size_lt_of_magnitude_lt hlt]
      · have hy := size_above hgt
        have hdist : |y.size - v| = y.size - v := abs_of_nonneg (by linarith [h.high])
        rw [hdist]
        refine ⟨abs_le.mpr ⟨by linarith [h.high], by linarith [size_lt_of_magnitude_lt hgt]⟩, fun heq => ?_⟩
        by_contra hodd
        have hhigh := h.high_of_odd (by omega)
        rcases abs_choice (x.size - v) with h' | h' <;> linarith [size_lt_of_magnitude_lt hgt]
    refine ⟨rfl, isNaN_of_isFinite hfin, fun y _ => ?_, fun y _ hne => ?_⟩
    · by_cases hmag : y.magnitude = x.magnitude
      · rw [size_eq_of_magnitude_eq hmag]
      · exact (hfar y hmag).1
    · exact (hfar y fun hmag => hne (size_eq_of_magnitude_eq hmag)).2

/-- Without value a decimal is rounded to zero. -/
theorem rounds_zero {x : Binary64} (hfin : x.isFinite = true) (hsig : x.significand = 0) : Rounds x.negative 0 x := by
  have hsize : x.size = 0 := by rw [size, hsig, Nat.cast_zero, zero_mul]
  refine ⟨rfl, isNaN_of_isFinite hfin, fun y _ => ?_, fun _ _ _ _ => by rw [hsig]⟩
  rw [hsize, sub_zero, abs_zero]
  exact abs_nonneg _

/-! ## Integers -/

/-- A number that is an integer is the one that the integer is turned into, unless it is the negative zero. -/
theorem ofInt_eq {n : ℤ} {y : Binary64} (hfin : y.isFinite = true) (hvalue : y.value = n) (hn : n.natAbs < 2 ^ 64)
    (hzero : y ≠ ofMagnitude true 0) : ofInt n = y := by
  obtain ⟨-, hnearest⟩ := ofInt_isNearest hn
  have hsame : (ofInt n).value = n := by
    have := hnearest y hfin
    rw [hvalue, sub_self, abs_zero] at this
    linarith [abs_nonpos_iff.mp this]
  have hsize (x : Binary64) : x.size = |x.value| := by
    unfold value
    split
    · rw [abs_neg, abs_of_nonneg x.size_nonneg]
    · rw [abs_of_nonneg x.size_nonneg]
  have hmagnitude : (ofInt n).magnitude = y.magnitude := by
    refine magnitude_eq_of_size_eq ?_
    rw [hsize, hsize, hsame, hvalue]
  by_cases h : n = 0
  · have hsig : y.significand = 0 := by
      have hval : y.size = 0 := by rw [hsize, hvalue, h, Int.cast_zero, abs_zero]
      rcases mul_eq_zero.mp hval with h | h
      · exact_mod_cast h
      · exact absurd h (two_zpow_pos _).ne'
    refine eq_of_magnitude_eq ?_ hmagnitude
    rw [h, show (ofInt 0).negative = false by decide]
    -- the sign is the only thing that tells the two zeros apart
    cases hnegative : y.negative with
    | false => rfl
    | true => exact absurd (hnegative ▸ (ofMagnitude_of_significand_zero hsig).symm) hzero
  · have hsign (x : Binary64) (hx : x.value = n) : x.negative = decide (n < 0) := by
      have hnonneg := x.size_nonneg
      unfold value at hx
      split at hx
      · next hnegative =>
        have : (n : ℚ) ≤ 0 := by linarith
        have : n ≤ 0 := by exact_mod_cast this
        rw [hnegative, eq_comm, decide_eq_true_eq]
        omega
      · next hnegative =>
        have : (0 : ℚ) ≤ n := by linarith
        have : 0 ≤ n := by exact_mod_cast this
        rw [Bool.not_eq_true] at hnegative
        rw [hnegative, eq_comm, decide_eq_false_iff_not]
        omega
    exact eq_of_magnitude_eq ((hsign _ hsame).trans (hsign y hvalue).symm) hmagnitude

end FirstRow.Binary64
