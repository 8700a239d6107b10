import FirstRow.Proofs.Binary64.Rounding

/-!
# Integers become the nearest numbers

An integer lies between two neighbours on the grid of its leading bit, and `ofInt` gives the nearer one. All numbers
from that leading bit on lie on the grid, and the power of two that bounds them is nearer than whatever lies below, so
no other finite number is nearer.
-/
namespace FirstRow.Binary64

/-- The value of a finite number. -/
def value (x : Binary64) : ℚ :=
  if x.negative then -x.size else x.size

/-- No finite number is nearer. -/
def IsNearest (x : Binary64) (v : ℚ) : Prop :=
  x.isFinite = true ∧ ∀ y : Binary64, y.isFinite = true → |x.value - v| ≤ |y.value - v|

theorem size_nonneg (x : Binary64) : 0 ≤ x.size :=
  mul_nonneg (Nat.cast_nonneg _) (two_zpow_pos _).le

/-! ## Rounding on a grid -/

/-- A quotient is rounded by half of the divisor at most. -/
theorem roundDiv_close (num : Nat) {den : Nat} (hden : 0 < den) :
    2 * ((roundDiv num den : ℤ) * den - num) ≤ den ∧ 2 * (num - (roundDiv num den : ℤ) * den) ≤ den := by
  have hdiv := Nat.div_add_mod num den
  have hmod := Nat.mod_lt num hden
  unfold roundDiv
  simp only
  generalize num / den = q at hdiv ⊢
  generalize num % den = r at hdiv hmod ⊢
  have hnum : (num : ℤ) = q * den + r := by
    rw [← hdiv, Nat.mul_comm]
    push_cast
    rfl
  have hup : ((q + 1 : Nat) : ℤ) * den = q * den + den := by
    push_cast
    ring
  split
  · omega
  · split
    · omega
    · split <;> omega

/-- What a quotient is rounded to is no further from it than any other point of the grid. -/
theorem roundDiv_nearest (num : Nat) {den : Nat} (hden : 0 < den) (j : ℤ) :
    |(roundDiv num den : ℤ) * den - num| ≤ |j * den - num| := by
  have hclose : 2 * |(roundDiv num den : ℤ) * den - num| ≤ den := by
    have := roundDiv_close num hden
    rcases abs_cases ((roundDiv num den : ℤ) * den - num) with ⟨h, -⟩ | ⟨h, -⟩ <;> omega
  by_cases h : j = roundDiv num den
  · rw [h]
  · -- two points of the grid are a divisor apart
    have hapart : (den : ℤ) ≤ |j * den - roundDiv num den * den| := by
      rw [← sub_mul, abs_mul, Nat.abs_cast]
      exact le_mul_of_one_le_left (Nat.cast_nonneg _) (Int.one_le_abs (sub_ne_zero.mpr h))
    have htriangle := abs_sub_le (j * den) (num : ℤ) (roundDiv num den * den)
    rw [abs_sub_comm (num : ℤ)] at htriangle
    omega

/-- What a quotient is rounded to is a whole number that is nearest to it. -/
theorem roundDiv_nearest_div (num : Nat) {den : Nat} (hden : 0 < den) (j : ℤ) :
    |(roundDiv num den : ℚ) - num / den| ≤ |(j : ℚ) - num / den| := by
  have hpos : (0 : ℚ) < den := by exact_mod_cast hden
  have hscale (a : ℚ) : |a - num / den| = |a * den - num| / den := by
    rw [← abs_of_pos hpos, ← abs_div, abs_of_pos hpos]
    congr 1
    field_simp
  rw [hscale, hscale]
  refine div_le_div_of_nonneg_right ?_ hpos.le
  exact_mod_cast roundDiv_nearest num hden j

/-- A whole number that is nearest to a number is between the whole numbers that this is between. -/
theorem between_of_nearest {a b q : Nat} {v : ℚ} (hlow : a ≤ v) (hhigh : v ≤ b)
    (hnearest : ∀ j : ℤ, |(q : ℚ) - v| ≤ |(j : ℚ) - v|) : a ≤ q ∧ q ≤ b := by
  have hleast := hnearest a
  have hmost := hnearest b
  rw [Int.cast_natCast] at hleast hmost
  rw [abs_sub_comm, abs_sub_comm (a : ℚ), abs_of_nonneg (sub_nonneg.mpr hlow), abs_le] at hleast
  rw [abs_of_nonneg (sub_nonneg.mpr hhigh), abs_le] at hmost
  have hge : (a : ℚ) ≤ q := by linarith
  have hle : (q : ℚ) ≤ b := by linarith
  exact ⟨by exact_mod_cast hge, by exact_mod_cast hle⟩

/-! ## Integers -/

/-- The bits of a point of a grid are a number of its size. -/
theorem size_ofMagnitude (negative : Bool) {e q : Nat} (he : e ≤ 2044) (hlow : 0x10000000000000 ≤ q)
    (hhigh : q ≤ 0x20000000000000) :
    (ofMagnitude negative (e * 0x10000000000000 + q)).isFinite = true ∧
      (ofMagnitude negative (e * 0x10000000000000 + q)).negative = negative ∧
      (ofMagnitude negative (e * 0x10000000000000 + q)).size = q * 2 ^ ((e : ℤ) - 1074) := by
  set x := ofMagnitude negative (e * 0x10000000000000 + q) with hx
  have hbits : x.bits.toNat = (if negative then 0x8000000000000000 else 0) + (e * 0x10000000000000 + q) := by
    rw [hx, ofMagnitude]
    show ((if negative then 0x8000000000000000 else 0) + (e * 0x10000000000000 + q)).toUInt64.toNat = _
    rw [Nat.toUInt64, UInt64.toNat_ofNat']
    refine Nat.mod_eq_of_lt ?_
    split <;> omega
  have hmagnitude := x.magnitude_eq
  have hrest : x.bits.toNat % 0x8000000000000000 = e * 0x10000000000000 + q := by
    rw [hbits]
    split <;> omega
  have hfield : x.exponentField < 2047 ∧ x.exponentField ≠ 0 := by
    unfold exponentField
    omega
  have hsignificand := significand_ge hfield.2
  have hlt := x.significand_lt
  rw [hrest, exponent_of_field hfield.2] at hmagnitude
  refine ⟨by simpa [isFinite] using hfield.1, ?_, ?_⟩
  · unfold Binary64.negative
    rw [hbits]
    cases negative
    · simp only [Bool.false_eq_true, if_false, decide_eq_false_iff_not]
      omega
    · simp
  · unfold size
    rw [exponent_of_field hfield.2]
    rcases Nat.lt_or_eq_of_le hhigh with hfull | hfull
    · -- the point has the leading bit of the grid
      have hexponent : x.exponentField = e + 1 := by omega
      have hpoint : x.significand = q := by omega
      rw [hexponent, hpoint]
      congr 2
      push_cast
      ring
    · -- the point is the next power of two
      have hexponent : x.exponentField = e + 2 := by omega
      have hpoint : x.significand = 0x10000000000000 := by omega
      have hscale : (2 : ℚ) ^ (((e + 2 : Nat) : ℤ) - 1075) = 2 * 2 ^ ((e : ℤ) - 1074) := by
        rw [← zpow_one_add₀ (by norm_num)]
        congr 1
        push_cast
        ring
      rw [hexponent, hpoint, hscale, hfull]
      push_cast
      ring

/-- The grid of an integer is fifty-two places below its leading bit. -/
theorem gridExponent_one {m : Nat} (hm : 0 < m) : gridExponent m 1 = (m.log2 : ℤ) - 52 := by
  have hle : powLe m.log2 m 1 = true := by
    rw [powLe_iff Nat.one_pos, zpow_natCast, Nat.cast_one, div_one]
    exact_mod_cast Nat.log2_self_le (by omega)
  have hone : Nat.log2 1 = 0 := by decide
  unfold gridExponent
  simp only [hone, Nat.cast_zero, sub_zero, hle, if_true]
  omega

/-- An integer is so many steps of its grid that they have fifty-three bits. -/
theorem grid_bounds {m : Nat} (hm : 0 < m) : (0x10000000000000 : ℚ) ≤ m / 2 ^ ((m.log2 : ℤ) - 52) ∧
    (m : ℚ) / 2 ^ ((m.log2 : ℤ) - 52) < 0x20000000000000 := by
  have hp := two_zpow_pos ((m.log2 : ℤ) - 52)
  rw [le_div_iff₀ hp, div_lt_iff₀ hp]
  constructor
  · calc (0x10000000000000 : ℚ) * 2 ^ ((m.log2 : ℤ) - 52) = 2 ^ (m.log2 : ℤ) := by
          rw [zpow_sub₀ (by norm_num)]
          norm_num
          ring
      _ ≤ m := by
        rw [zpow_natCast]
        exact_mod_cast Nat.log2_self_le (by omega)
  · calc (m : ℚ) < 2 ^ ((m.log2 : ℤ) + 1) := by
          rw [show (m.log2 : ℤ) + 1 = ((m.log2 + 1 : Nat) : ℤ) by omega, zpow_natCast]
          exact_mod_cast Nat.lt_log2_self
      _ = 0x20000000000000 * 2 ^ ((m.log2 : ℤ) - 52) := by
        rw [zpow_sub₀ (by norm_num), zpow_add₀ (by norm_num)]
        norm_num
        ring

/-- An integer becomes a point of its grid, and no other point is nearer. -/
theorem ofRatio_one (negative : Bool) {m : Nat} (hm : 0 < m) (hlt : m < 2 ^ 64) :
    ∃ e q : Nat, e ≤ 2044 ∧ 0x10000000000000 ≤ q ∧ q ≤ 0x20000000000000 ∧ (e : ℤ) - 1074 = m.log2 - 52 ∧
      ofRatio negative m 1 = ofMagnitude negative (e * 0x10000000000000 + q) ∧
      ∀ j : ℤ, |(q : ℚ) * 2 ^ ((e : ℤ) - 1074) - m| ≤ |(j : ℚ) * 2 ^ ((e : ℤ) - 1074) - m| := by
  have hgrid := gridExponent_one hm
  have hlog : m.log2 < 64 := Nat.log2_lt (by omega) |>.mpr hlt
  have hbounds := grid_bounds hm
  rw [← hgrid] at hbounds
  set g := gridExponent m 1 with hg
  set num := if 0 ≤ g then m else m <<< (-g).toNat with hnum
  set den := if 0 ≤ g then 1 <<< g.toNat else 1 with hden
  have hpos : 0 < den := by
    rw [hden]
    split
    · rw [Nat.one_shiftLeft]
      positivity
    · exact Nat.one_pos
  have hquotient : (num : ℚ) / den = m / 2 ^ g := by
    rw [hnum, hden, shift_div, Nat.cast_one, div_one]
  have hnearest := roundDiv_nearest_div num hpos
  rw [hquotient] at hnearest
  have hq : 0x10000000000000 ≤ roundDiv num den ∧ roundDiv num den ≤ 0x20000000000000 :=
    between_of_nearest (by exact_mod_cast hbounds.1) (by exact_mod_cast hbounds.2.le) hnearest
  have he : (((g + 1074).toNat : Nat) : ℤ) - 1074 = g := by omega
  refine ⟨(g + 1074).toNat, roundDiv num den, by omega, hq.1, hq.2, by omega, ?_, fun j => ?_⟩
  · have hround : (if 0 ≤ g then roundDiv m (1 <<< g.toNat) else roundDiv (m <<< (-g).toNat) 1) = roundDiv num den := by
      rw [hnum, hden]
      split <;> rfl
    unfold ofRatio
    rw [if_neg (by omega)]
    simp only [← hg, hround]
    exact if_pos (by omega)
  · have hp := two_zpow_pos g
    have hscale (a : ℚ) : |a * 2 ^ g - m| = |a - m / 2 ^ g| * 2 ^ g := by
      rw [← abs_of_pos hp, ← abs_mul, abs_of_pos hp]
      congr 1
      field_simp
    rw [he, hscale, hscale]
    exact mul_le_mul_of_nonneg_right (hnearest j) hp.le

/-- The size of a number from a power of two on is a point of the grid of that power. -/
theorem exists_size_eq {y : Binary64} {k : ℤ} (h : (2 : ℚ) ^ k ≤ y.size) : ∃ j : ℤ, y.size = (j : ℚ) * 2 ^ (k - 52) := by
  have hlt : (y.significand : ℚ) < 2 ^ (53 : ℤ) := by exact_mod_cast y.significand_lt
  have hexponent : k - 52 ≤ y.exponent := by
    have : (2 : ℚ) ^ k < 2 ^ (53 + y.exponent) := by
      rw [zpow_add₀ (by norm_num)]
      exact lt_of_le_of_lt h (mul_lt_mul_of_pos_right hlt (two_zpow_pos _))
    have := (zpow_lt_zpow_iff_right₀ (by norm_num)).mp this
    omega
  obtain ⟨n, hn⟩ := Int.eq_ofNat_of_zero_le (sub_nonneg.mpr hexponent)
  refine ⟨y.significand * 2 ^ n, ?_⟩
  rw [size, show y.exponent = n + (k - 52) by omega, zpow_add₀ (by norm_num), zpow_natCast]
  push_cast
  ring

/-- No size of a number is nearer to a whole number than what that becomes. -/
theorem abs_size_sub_le {m e q : Nat} (hm : 0 < m) (he : (e : ℤ) - 1074 = m.log2 - 52)
    (hnearest : ∀ j : ℤ, |(q : ℚ) * 2 ^ ((e : ℤ) - 1074) - m| ≤ |(j : ℚ) * 2 ^ ((e : ℤ) - 1074) - m|) (y : Binary64) :
    |(q : ℚ) * 2 ^ ((e : ℤ) - 1074) - m| ≤ |y.size - m| := by
  by_cases hy : (2 : ℚ) ^ (m.log2 : ℤ) ≤ y.size
  · obtain ⟨j, hj⟩ := exists_size_eq hy
    rw [hj, ← he]
    exact hnearest j
  · -- the power of two itself is a point of the grid, between the number and the whole number
    have hpower : (2 : ℚ) ^ (m.log2 : ℤ) = ((2 ^ 52 : ℤ) : ℚ) * 2 ^ ((e : ℤ) - 1074) := by
      rw [he, zpow_sub₀ (by norm_num)]
      norm_num
      ring
    have hle : (2 : ℚ) ^ (m.log2 : ℤ) ≤ m := by
      rw [zpow_natCast]
      exact_mod_cast Nat.log2_self_le (by omega)
    rw [not_le] at hy
    calc |(q : ℚ) * 2 ^ ((e : ℤ) - 1074) - m| ≤ |(2 : ℚ) ^ (m.log2 : ℤ) - m| := by
          rw [hpower]
          exact hnearest _
      _ = m - (2 : ℚ) ^ (m.log2 : ℤ) := by rw [abs_sub_comm, abs_of_nonneg (sub_nonneg.mpr hle)]
      _ ≤ m - y.size := by linarith
      _ ≤ |y.size - m| := by
        rw [abs_sub_comm]
        exact le_abs_self _

/-- The value of a number is at least as far from an integer as its size is from the magnitude of the integer. -/
theorem abs_size_sub_le_value (y : Binary64) (n : ℤ) : |y.size - n.natAbs| ≤ |y.value - n| := by
  have hsize : |y.value| = y.size := by
    unfold value
    split
    · rw [abs_neg, abs_of_nonneg y.size_nonneg]
    · exact abs_of_nonneg y.size_nonneg
  have habs : ((n.natAbs : Nat) : ℚ) = |(n : ℚ)| := by
    rw [Nat.cast_natAbs]
    push_cast
    rfl
  rw [← hsize, habs]
  exact abs_abs_sub_abs_le _ _

/-- An integer of up to 64 bits becomes the nearest number. -/
theorem ofInt_isNearest {n : ℤ} (h : n.natAbs < 2 ^ 64) : (ofInt n).IsNearest n := by
  by_cases hn : n = 0
  · subst hn
    refine ⟨by decide, fun y _ => ?_⟩
    have hzero : (ofInt 0).value = 0 := by
      have hbits : (ofInt 0).significand = 0 := by decide
      simp [value, size, hbits]
    rw [hzero]
    simp
  · have hm : 0 < n.natAbs := Int.natAbs_pos.mpr hn
    obtain ⟨e, q, he, hlow, hhigh, hgrid, hratio, hnearest⟩ := ofRatio_one (decide (n < 0)) hm h
    obtain ⟨hfinite, hnegative, hsize⟩ := size_ofMagnitude (decide (n < 0)) he hlow hhigh
    have hvalue : |(ofInt n).value - n| = |(q : ℚ) * 2 ^ ((e : ℤ) - 1074) - n.natAbs| := by
      rw [ofInt, hratio, value, hnegative, hsize]
      by_cases hneg : n < 0
      · have hcast : (n : ℚ) = -n.natAbs := by
          rw [← Int.cast_natCast, ← Int.cast_neg]
          congr 1
          omega
        rw [decide_eq_true hneg, if_pos rfl, hcast, ← abs_neg]
        congr 1
        ring
      · have hcast : (n : ℚ) = n.natAbs := by
          rw [← Int.cast_natCast]
          congr 1
          omega
        rw [decide_eq_false hneg, if_neg (by simp), hcast]
    refine ⟨by rw [ofInt, hratio]; exact hfinite, fun y _ => ?_⟩
    calc |(ofInt n).value - n| = |(q : ℚ) * 2 ^ ((e : ℤ) - 1074) - n.natAbs| := hvalue
      _ ≤ |y.size - n.natAbs| := abs_size_sub_le hm hgrid hnearest y
      _ ≤ |y.value - n| := y.abs_size_sub_le_value n

end FirstRow.Binary64
