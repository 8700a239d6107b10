import FirstRow.Proofs.Binary64.Shortest
import FirstRow.Proofs.Binary64.Rounds

/-!
# No decimal with fewer digits reads back

The grids are searched from the coarsest on. A decimal that rounds to the number lies on one of them: with its last
digit at or above a grid, it is a point of that grid, and then one of the two neighbours of the number is in the
interval as well; with all its digits below the first digit of the number, it is at most the power of ten where that
stands, and then this power is in the interval. So a grid on which nothing is found has no decimal in the interval, and
the digits of what is found on the next grid are at most one more.
-/
namespace FirstRow.Binary64

theorem near_size (x : Binary64) : x.Near x.size := by
  have hp := two_zpow_pos x.exponent
  have hreach : 0 < x.reachBelow := by
    unfold reachBelow
    split <;> norm_num
  exact .of_lt (mul_lt_mul_of_pos_right (by linarith) hp) (mul_lt_mul_of_pos_right (by linarith) hp)

/-- What lies between the number and a rational that rounds to it rounds to it. -/
theorem Near.between {x : Binary64} {v w : ℚ} (hv : x.Near v) (h : v ≤ w ∧ w ≤ x.size ∨ x.size ≤ w ∧ w ≤ v) :
    x.Near w := by
  have hsize := x.near_size
  rcases h with ⟨hlow, hhigh⟩ | ⟨hlow, hhigh⟩
  · exact ⟨hv.low.trans hlow, hhigh.trans hsize.high, fun hodd => (hv.low_of_odd hodd).trans_le hlow,
      fun hodd => hhigh.trans_lt (hsize.high_of_odd hodd)⟩
  · exact ⟨hsize.low.trans hlow, hhigh.trans hv.high, fun hodd => (hsize.low_of_odd hodd).trans_le hlow,
      fun hodd => hhigh.trans_lt (hv.high_of_odd hodd)⟩

/-- A point is found on a grid if one of the neighbours is admitted. -/
theorem isSome_nearest?_of_neighbour {i : Interval} {k : Int}
    (h : i.admits (i.value * (powTen k).2 / (i.den * (powTen k).1)) k = true ∨
      i.admits (i.value * (powTen k).2 / (i.den * (powTen k).1) + 1) k = true) : (i.nearest? k).isSome = true := by
  unfold Interval.nearest?
  simp only
  split
  · next hd hd' => rw [hd, hd'] at h; simp at h
  · rfl
  · rfl
  · split_ifs <;> rfl

/-- A point is found on every grid that has a decimal which rounds to the number. -/
theorem isSome_nearest?_of_near {x : Binary64} (hsig : x.significand ≠ 0) {d : Nat} {k : Int}
    (h : x.Near (d * 10 ^ k)) : (x.interval.nearest? k).isSome = true := by
  obtain ⟨hfloor, hnext⟩ := x.floor_bounds k
  have hp := (ten_zpow_pos k).le
  refine isSome_nearest?_of_neighbour ?_
  generalize x.interval.value * (powTen k).2 / (x.interval.den * (powTen k).1) = q at hfloor hnext ⊢
  rw [admits_iff hsig, admits_iff hsig]
  rcases Nat.lt_or_ge q d with hlt | hge
  · refine .inr (h.between (.inr ⟨hnext.le, mul_le_mul_of_nonneg_right ?_ hp⟩))
    exact_mod_cast hlt
  · refine .inl (h.between (.inl ⟨mul_le_mul_of_nonneg_right ?_ hp, hfloor⟩))
    exact_mod_cast hge

/-- The search for the first digit never steps over it. -/
theorem lt_go {i : Interval} (hden : 0 < i.den) (fuel : Nat) {e : Int} (h : (i.value : ℚ) / i.den < 10 ^ (e + 1)) :
    (i.value : ℚ) / i.den < 10 ^ (Interval.leadingExponent.go i fuel e + 1) := by
  induction fuel generalizing e with
  | zero => exact h
  | succ fuel ih =>
    have hstep := decimal_le_iff hden i.value 1 e
    rw [Nat.one_mul, Nat.cast_one, one_mul] at hstep
    unfold Interval.leadingExponent.go
    simp only
    split
    · exact h
    · next hlt =>
      rw [hstep, not_le] at hlt
      exact ih (by rwa [Int.sub_add_cancel])

theorem two_pow_le_ten_pow_309 : 0x20000000000000 * 2 ^ 971 < 10 ^ 309 := by decide +kernel

theorem lt_leadingExponent {x : Binary64} (hfin : x.isFinite = true) :
    x.size < 10 ^ (x.interval.leadingExponent + 1) := by
  rw [← interval_value]
  refine lt_go x.interval_den_pos 640 ?_
  have hsig : (x.significand : ℚ) ≤ 0x20000000000000 := by exact_mod_cast x.significand_lt.le
  rw [interval_value]
  calc x.size ≤ 0x20000000000000 * 2 ^ x.exponent := mul_le_mul_of_nonneg_right hsig (two_zpow_pos _).le
    _ ≤ 0x20000000000000 * 2 ^ (971 : Int) :=
      mul_le_mul_of_nonneg_left (zpow_le_zpow_right₀ (by norm_num) (exponent_le hfin)) (by norm_num)
    _ < 10 ^ ((308 : Int) + 1) := by
      rw [show (971 : Int) = (971 : Nat) from rfl, show (308 : Int) + 1 = (309 : Nat) from rfl, zpow_natCast,
        zpow_natCast]
      exact_mod_cast two_pow_le_ten_pow_309

/-- What is taken as the nearest point is a neighbour of the number. -/
theorem nearest?_le {i : Interval} {k : Int} {d : Nat} (h : i.nearest? k = some d) :
    d ≤ i.value * (powTen k).2 / (i.den * (powTen k).1) + 1 := by
  unfold Interval.nearest? at h
  simp only at h
  split at h
  · cases h
  · cases h; omega
  · cases h; omega
  · split_ifs at h <;> cases h <;> omega

/-- A point of a grid has so many digits as the first digit of the number is above the grid, or is the power of ten
after them. -/
theorem nearest?_le_pow {x : Binary64} (hfin : x.isFinite = true) {d m : Nat}
    (h : x.interval.nearest? (x.interval.leadingExponent - m) = some d) : d ≤ 10 ^ (m + 1) := by
  refine (nearest?_le h).trans (Nat.succ_le_of_lt ?_)
  obtain ⟨hfloor, -⟩ := x.floor_bounds (x.interval.leadingExponent - m)
  have hlt := hfloor.trans_lt (lt_leadingExponent hfin)
  rw [show x.interval.leadingExponent + 1 = ((m + 1 : Nat) : Int) + (x.interval.leadingExponent - m) by omega,
    zpow_add₀ (by norm_num), zpow_natCast] at hlt
  exact_mod_cast lt_of_mul_lt_mul_right hlt (ten_zpow_pos _).le

/-- A decimal that rounds to the number has at least so many digits as the first grid with an admitted point. -/
theorem le_length_of_near {x : Binary64} (hsig : x.significand ≠ 0) {d m : Nat} {k : Int} (h : x.Near (d * 10 ^ k))
    (hfirst : ∀ j < m, x.interval.nearest? (x.interval.leadingExponent - j) = none) :
    m + 1 ≤ (Decimal.digits d).length := by
  have hpos := List.length_pos_of_ne_nil (Decimal.digits_ne_nil d)
  have hlt := Decimal.lt_pow_length_digits d
  generalize (Decimal.digits d).length = n at hpos hlt ⊢
  by_contra hshort
  rcases Int.lt_or_le k (x.interval.leadingExponent - (n - 1 : Nat)) with hk | hk
  · -- the decimal is below the first digit
    have hnear : x.Near ((1 : Nat) * 10 ^ (x.interval.leadingExponent - (0 : Nat))) := by
      rw [Nat.cast_one, one_mul, Nat.cast_zero, sub_zero]
      refine h.between (.inl ⟨?_, leadingExponent_le hsig⟩)
      calc (d : ℚ) * 10 ^ k ≤ 10 ^ n * 10 ^ k :=
            mul_le_mul_of_nonneg_right (by exact_mod_cast hlt.le) (ten_zpow_pos k).le
        _ = 10 ^ ((n : Int) + k) := by rw [zpow_add₀ (by norm_num), zpow_natCast]
        _ ≤ 10 ^ x.interval.leadingExponent := zpow_le_zpow_right₀ (by norm_num) (by omega)
    have hsome := isSome_nearest?_of_near hsig hnear
    rw [hfirst 0 (by omega)] at hsome
    cases hsome
  · -- the decimal is on the grid of its own count of digits
    obtain ⟨z, hz⟩ := Int.eq_ofNat_of_zero_le (sub_nonneg.mpr hk)
    have hnear : x.Near ((d * 10 ^ z : Nat) * 10 ^ (x.interval.leadingExponent - (n - 1 : Nat))) := by
      convert h using 1
      rw [Nat.cast_mul, Nat.cast_pow, mul_assoc, ← zpow_natCast, Nat.cast_ofNat, ← zpow_add₀ (by norm_num)]
      congr 2
      omega
    have hsome := isSome_nearest?_of_near hsig hnear
    rw [hfirst (n - 1) (by omega)] at hsome
    cases hsome

/-- The shortest digits are the fewest of all decimals that round to the number. -/
theorem length_shortest_le {x : Binary64} (hfin : x.isFinite = true) (hsig : x.significand ≠ 0) {d : Nat} {k : Int}
    (h : x.Near (d * 10 ^ k)) : x.shortest.digits.length ≤ (Decimal.digits d).length := by
  obtain ⟨d', m, hfound, hfirst, heq⟩ := shortest_eq hsig
  rw [heq]
  exact (length_dropZeros_digits_le (Nat.succ_pos m) (nearest?_le_pow hfin hfound)).trans
    (le_length_of_near hsig h hfirst)

end FirstRow.Binary64
