import FirstRow.Proofs.Binary64.Rounding
import FirstRow.Proofs.Decimal.Digits

/-!
# The shortest decimal reads back

The search for the shortest digits ends with a decimal in the interval of the number. Every candidate is checked
against the interval before it is taken, and the grids are tried from the coarsest on. What remains is that one has a
candidate: on the grid eighteen digits fine the neighbour below the number is nearer to it than either end of the
interval.
-/
namespace FirstRow.Binary64

/-- A shift to one side or the other is a power of two. -/
theorem shift_one_div (e : Int) : ((1 <<< e.toNat : Nat) : ℚ) / (1 <<< (-e).toNat : Nat) = 2 ^ e := by
  rcases Int.le_total 0 e with h | h
  · obtain ⟨n, rfl⟩ := Int.eq_ofNat_of_zero_le h
    rw [Int.toNat_natCast, Int.toNat_neg_natCast, Nat.one_shiftLeft, Nat.one_shiftLeft, zpow_natCast]
    simp
  · obtain ⟨n, rfl⟩ : ∃ n : Nat, e = -n := ⟨(-e).toNat, by omega⟩
    rw [neg_neg, Int.toNat_natCast, Int.toNat_neg_natCast, Nat.one_shiftLeft, Nat.one_shiftLeft, zpow_neg, zpow_natCast]
    simp

theorem powTen_pos (k : Int) : 0 < (powTen k).1 ∧ 0 < (powTen k).2 :=
  ⟨Nat.pow_pos (by decide), Nat.pow_pos (by decide)⟩

theorem powTen_div (k : Int) : ((powTen k).1 : ℚ) / (powTen k).2 = 10 ^ k := by
  unfold powTen
  rcases Int.le_total 0 k with h | h
  · obtain ⟨n, rfl⟩ := Int.eq_ofNat_of_zero_le h
    rw [Int.toNat_natCast, Int.toNat_neg_natCast, zpow_natCast]
    simp
  · obtain ⟨n, rfl⟩ : ∃ n : Nat, k = -n := ⟨(-k).toNat, by omega⟩
    rw [neg_neg, Int.toNat_natCast, Int.toNat_neg_natCast, zpow_neg, zpow_natCast]
    simp

theorem interval_den_pos (x : Binary64) : 0 < x.interval.den := by
  rw [show x.interval.den = 1 <<< (-(x.exponent - 2)).toNat from rfl, Nat.one_shiftLeft]
  positivity

theorem interval_scale (x : Binary64) :
    ((1 <<< (x.exponent - 2).toNat : Nat) : ℚ) / x.interval.den = 2 ^ x.exponent / 4 := by
  have : (2 : ℚ) ^ (x.exponent - 2) = 2 ^ x.exponent / 4 := by
    rw [zpow_sub₀ (by norm_num)]
    norm_num
  rw [← this]
  exact shift_one_div _

theorem interval_value (x : Binary64) : (x.interval.value : ℚ) / x.interval.den = x.size := by
  have h := x.interval_scale
  rw [size, show x.interval.value = 4 * x.significand * 1 <<< (x.exponent - 2).toNat from rfl, Nat.cast_mul,
    mul_div_assoc, h]
  push_cast
  ring

theorem interval_high (x : Binary64) :
    (x.interval.high : ℚ) / x.interval.den = (x.significand + 1 / 2) * 2 ^ x.exponent := by
  have h := x.interval_scale
  rw [show x.interval.high = (4 * x.significand + 2) * 1 <<< (x.exponent - 2).toNat from rfl, Nat.cast_mul,
    mul_div_assoc, h]
  push_cast
  ring

theorem interval_low {x : Binary64} (hsig : x.significand ≠ 0) :
    (x.interval.low : ℚ) / x.interval.den = (x.significand - x.reachBelow) * 2 ^ x.exponent := by
  have h := x.interval_scale
  have hlow : x.interval.low = (4 * x.significand - if x.fractionField = 0 ∧ 1 < x.exponentField then 1 else 2)
      * 1 <<< (x.exponent - 2).toNat := rfl
  rw [hlow, Nat.cast_mul, mul_div_assoc, h]
  unfold reachBelow
  split
  · rw [Nat.cast_sub (by omega)]
    push_cast
    ring
  · rw [Nat.cast_sub (by omega)]
    push_cast
    ring

/-- A decimal is compared with a bound over the denominator of the interval. -/
theorem decimal_ge_iff {den : Nat} (hden : 0 < den) (a d : Nat) (k : Int) :
    a * (powTen k).2 ≤ d * (powTen k).1 * den ↔ (a : ℚ) / den ≤ d * 10 ^ k := by
  have hp : (0 : ℚ) < den := by exact_mod_cast hden
  have hd : (0 : ℚ) < (powTen k).2 := by exact_mod_cast (powTen_pos k).2
  rw [← powTen_div, mul_div_assoc', div_le_div_iff₀ hp hd]
  exact_mod_cast Iff.rfl

theorem decimal_le_iff {den : Nat} (hden : 0 < den) (a d : Nat) (k : Int) :
    d * (powTen k).1 * den ≤ a * (powTen k).2 ↔ d * 10 ^ k ≤ (a : ℚ) / den := by
  have hp : (0 : ℚ) < den := by exact_mod_cast hden
  have hd : (0 : ℚ) < (powTen k).2 := by exact_mod_cast (powTen_pos k).2
  rw [← powTen_div, mul_div_assoc', div_le_div_iff₀ hd hp]
  exact_mod_cast Iff.rfl

/-- A decimal is admitted exactly if it rounds to the number. -/
theorem admits_iff {x : Binary64} (hsig : x.significand ≠ 0) (d : Nat) (k : Int) :
    x.interval.admits d k = true ↔ x.Near (d * 10 ^ k) := by
  have hden := x.interval_den_pos
  have hge := decimal_ge_iff hden x.interval.low d k
  have hle := decimal_le_iff hden x.interval.high d k
  have hgt := not_congr (decimal_le_iff hden x.interval.low d k)
  have hlt := not_congr (decimal_ge_iff hden x.interval.high d k)
  rw [not_le, not_le] at hgt hlt
  rw [interval_low hsig] at hge hgt
  rw [interval_high] at hle hlt
  have hclosed : x.interval.closed = decide (x.significand % 2 = 0) := rfl
  unfold Interval.admits
  simp only [hclosed, decide_eq_true_eq]
  split
  · next heven =>
    rw [Bool.and_eq_true, decide_eq_true_eq, decide_eq_true_eq, hge, hle]
    exact ⟨fun h => ⟨h.1, h.2, by omega, by omega⟩, fun h => ⟨h.low, h.high⟩⟩
  · next hodd =>
    rw [Bool.and_eq_true, decide_eq_true_eq, decide_eq_true_eq, hgt, hlt]
    exact ⟨fun h => .of_lt h.1 h.2, fun h => ⟨h.low_of_odd (by omega), h.high_of_odd (by omega)⟩⟩

/-- The search for the first digit ends at a power of ten that is at most the number, if there is one in reach. -/
theorem go_le {i : Interval} (hden : 0 < i.den) {fuel : Nat} {e k : Int} (hlow : e - fuel < k) (hhigh : k ≤ e)
    (hk : (10 : ℚ) ^ k ≤ i.value / i.den) :
    (10 : ℚ) ^ (Interval.leadingExponent.go i fuel e) ≤ i.value / i.den := by
  induction fuel generalizing e with
  | zero => omega
  | succ fuel ih =>
    have hstep := decimal_le_iff hden i.value 1 e
    rw [Nat.one_mul, Nat.cast_one, one_mul] at hstep
    unfold Interval.leadingExponent.go
    simp only
    split
    · next h => exact hstep.mp h
    · next h =>
      rw [hstep] at h
      rcases Int.lt_or_eq_of_le hhigh with hlt | rfl
      · exact ih (by omega) (by omega)
      · exact absurd hk h

theorem two_pow_le_ten_pow' : 2 ^ 1074 ≤ 10 ^ 331 := by decide +kernel

theorem size_pos {x : Binary64} (hsig : x.significand ≠ 0) : 0 < x.size :=
  mul_pos (by exact_mod_cast Nat.pos_of_ne_zero hsig) (two_zpow_pos _)

theorem leadingExponent_le {x : Binary64} (hsig : x.significand ≠ 0) :
    (10 : ℚ) ^ x.interval.leadingExponent ≤ x.size := by
  rw [← interval_value]
  refine go_le x.interval_den_pos (k := -331) (by norm_num) (by norm_num) ?_
  have hone : (1 : ℚ) ≤ x.significand := by exact_mod_cast Nat.one_le_iff_ne_zero.mpr hsig
  rw [interval_value]
  calc (10 : ℚ) ^ (-331 : Int) ≤ 2 ^ (-1074 : Int) := by
        rw [show (-331 : Int) = -(331 : Nat) from rfl, show (-1074 : Int) = -(1074 : Nat) from rfl, zpow_neg, zpow_neg,
          zpow_natCast, zpow_natCast]
        exact inv_anti₀ (by positivity) (by exact_mod_cast two_pow_le_ten_pow')
    _ ≤ 2 ^ x.exponent := zpow_le_zpow_right₀ (by norm_num) x.exponent_ge
    _ ≤ x.size := le_mul_of_one_le_left (two_zpow_pos _).le hone

/-- Nearer below than a number's own share of fifty-four bits, a rational rounds to the number. -/
theorem near_of_close {x : Binary64} (hsig : x.significand ≠ 0) {v : ℚ} (hle : v ≤ x.size)
    (hclose : x.size - v < x.size / 2 ^ 54) : x.Near v := by
  have hp := two_zpow_pos x.exponent
  have hm : (0 : ℚ) < x.significand := by exact_mod_cast Nat.pos_of_ne_zero hsig
  have hshare : (x.significand : ℚ) / 2 ^ 54 ≤ x.reachBelow := by
    unfold reachBelow
    split
    · next h =>
      have hs : x.significand = 0x10000000000000 := by
        unfold significand
        rw [if_neg (by omega), h.1]
      rw [hs]
      norm_num
    · have : (x.significand : ℚ) < 0x20000000000000 := by exact_mod_cast x.significand_lt
      rw [div_le_iff₀ (by norm_num), show (1 / 2 * 2 ^ 54 : ℚ) = 0x20000000000000 by norm_num]
      exact this.le
  refine .of_lt ?_ (lt_of_le_of_lt hle ?_)
  · have : x.size / 2 ^ 54 ≤ x.reachBelow * 2 ^ x.exponent := by
      rw [size, mul_div_right_comm]
      exact mul_le_mul_of_nonneg_right hshare hp.le
    have hsize : x.size = x.significand * 2 ^ x.exponent := rfl
    linarith
  · exact mul_lt_mul_of_pos_right (by linarith) hp

/-- The number lies between two neighbours on the grid. -/
theorem floor_bounds (x : Binary64) (k : Int) :
    ((x.interval.value * (powTen k).2 / (x.interval.den * (powTen k).1) : Nat) : ℚ) * 10 ^ k ≤ x.size ∧
      x.size < ((x.interval.value * (powTen k).2 / (x.interval.den * (powTen k).1) + 1 : Nat) : ℚ) * 10 ^ k := by
  have hden := x.interval_den_pos
  have hfloor := Nat.div_mul_le_self (x.interval.value * (powTen k).2) (x.interval.den * (powTen k).1)
  have hnext := Nat.lt_mul_div_succ (x.interval.value * (powTen k).2) (Nat.mul_pos hden (powTen_pos k).1)
  generalize x.interval.value * (powTen k).2 / (x.interval.den * (powTen k).1) = d at hfloor hnext ⊢
  rw [show d * (x.interval.den * (powTen k).1) = d * (powTen k).1 * x.interval.den by ring, decimal_le_iff hden,
    interval_value] at hfloor
  rw [show x.interval.den * (powTen k).1 * (d + 1) = (d + 1) * (powTen k).1 * x.interval.den by ring, ← not_le,
    decimal_le_iff hden, interval_value, not_le] at hnext
  exact ⟨hfloor, hnext⟩

/-- On a fine enough grid the neighbour below the number is admitted. -/
theorem admits_floor {x : Binary64} (hsig : x.significand ≠ 0) {k : Int} (hk : k = x.interval.leadingExponent - 17) :
    x.interval.admits (x.interval.value * (powTen k).2 / (x.interval.den * (powTen k).1)) k = true := by
  obtain ⟨hfloor, hnext⟩ := x.floor_bounds k
  rw [Nat.cast_add, Nat.cast_one] at hnext
  refine (admits_iff hsig _ k).mpr (near_of_close hsig hfloor ?_)
  calc x.size - _ * 10 ^ k < 10 ^ k := by linarith
    _ = 10 ^ x.interval.leadingExponent / 10 ^ 17 := by
      rw [hk, zpow_sub₀ (by norm_num)]
      norm_num
    _ ≤ x.size / 10 ^ 17 := div_le_div_of_nonneg_right (leadingExponent_le hsig) (by norm_num)
    _ ≤ x.size / 2 ^ 54 := div_le_div_of_nonneg_left (size_pos hsig).le (by norm_num) (by norm_num)

/-- What is taken as the nearest point is admitted. -/
theorem admits_of_nearest? {i : Interval} {k : Int} {d : Nat} (h : i.nearest? k = some d) : i.admits d k = true := by
  unfold Interval.nearest? at h
  simp only at h
  split at h
  · cases h
  · next hd _ => cases h; exact hd
  · next hd => cases h; exact hd
  · next hd hd' => split_ifs at h <;> cases h <;> assumption

/-- A point is found where the neighbour below the number is admitted. -/
theorem isSome_nearest? {i : Interval} {k : Int}
    (h : i.admits (i.value * (powTen k).2 / (i.den * (powTen k).1)) k = true) : (i.nearest? k).isSome = true := by
  unfold Interval.nearest?
  simp only [h]
  split
  · next hf _ => cases hf
  · rfl
  · rfl
  · split_ifs <;> rfl

/-- The search takes the first grid with an admitted point, if it comes upon one. -/
theorem search_eq {i : Interval} (e : Int) (fuel : Nat) {n n' : Nat} (hn : n ≤ n') (hn' : n' < n + fuel)
    (h : (i.nearest? (e - n')).isSome = true) :
    ∃ (d m : Nat), i.nearest? (e - m) = some d ∧ (∀ j, n ≤ j → j < m → i.nearest? (e - j) = none) ∧
      i.search e fuel n = ⟨dropZeros (Decimal.digits d), e - m + ((Decimal.digits d).length - 1 : Nat)⟩ := by
  induction fuel generalizing n with
  | zero => omega
  | succ fuel ih =>
    unfold Interval.search
    simp only
    split
    · next d hd => exact ⟨d, n, hd, fun j hj hj' => by omega, rfl⟩
    · next hd =>
      rcases Nat.eq_or_lt_of_le hn with rfl | hlt
      · rw [hd] at h
        cases h
      · obtain ⟨d, m, hfound, hfirst, heq⟩ := ih hlt (by omega)
        refine ⟨d, m, hfound, fun j hj hj' => ?_, heq⟩
        rcases Nat.eq_or_lt_of_le hj with rfl | hj
        · exact hd
        · exact hfirst j hj hj'

/-- The shortest digits are those of the coarsest grid with an admitted point. -/
theorem shortest_eq {x : Binary64} (hsig : x.significand ≠ 0) :
    ∃ (d m : Nat), x.interval.nearest? (x.interval.leadingExponent - m) = some d ∧
      (∀ j < m, x.interval.nearest? (x.interval.leadingExponent - j) = none) ∧
      x.shortest = ⟨dropZeros (Decimal.digits d),
        x.interval.leadingExponent - m + ((Decimal.digits d).length - 1 : Nat)⟩ := by
  obtain ⟨d, m, hfound, hfirst, heq⟩ := search_eq x.interval.leadingExponent 18 (Nat.zero_le 17) (by decide)
    (isSome_nearest? (admits_floor hsig rfl))
  refine ⟨d, m, hfound, fun j hj => hfirst j (Nat.zero_le j) hj, ?_⟩
  rw [shortest, if_neg hsig]
  exact heq

/-- The shortest digits are those of a decimal that rounds to the number. -/
theorem shortest_spec {x : Binary64} (hsig : x.significand ≠ 0) :
    ∃ (d : Nat) (k : Int), 0 < d ∧ x.Near (d * 10 ^ k) ∧
      x.shortest = ⟨dropZeros (Decimal.digits d), k + ((Decimal.digits d).length - 1 : Nat)⟩ := by
  obtain ⟨d, m, hfound, -, heq⟩ := shortest_eq hsig
  have hnear := (admits_iff hsig d _).mp (admits_of_nearest? hfound)
  refine ⟨d, _, ?_, hnear, heq⟩
  rw [Nat.pos_iff_ne_zero]
  rintro rfl
  have hlow := hnear.low
  have hone : (1 : ℚ) ≤ x.significand := by exact_mod_cast Nat.one_le_iff_ne_zero.mpr hsig
  have := mul_pos (a := (x.significand : ℚ) - x.reachBelow) (by linarith [x.reachBelow_le]) (two_zpow_pos x.exponent)
  rw [Nat.cast_zero, zero_mul] at hlow
  linarith

theorem shortest_zero {x : Binary64} (hsig : x.significand = 0) : x.shortest = ⟨['0'], 0⟩ := by
  rw [shortest, if_pos hsig]

end FirstRow.Binary64
