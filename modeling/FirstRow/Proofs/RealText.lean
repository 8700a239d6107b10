import FirstRow.Fetch
import FirstRow.Proofs.Binary64.Fewest
import FirstRow.Proofs.Json.Numeral
import Mathlib.Data.Int.Log
import Mathlib.Data.List.DropRight

/-!
# The text of a served real

A finite real is served as its text and logged as its text. `real_text` says what that text is: read as an exact
decimal it is rounded to the real and to nothing else, no decimal with fewer digits is, it cannot be taken for an
integer, and its notation follows from where its first digit stands. What the decimal is rounded to is said by `Rounds`
alone, which knows nothing of the search for the digits.
-/
namespace FirstRow

/-- The digits between the zeros at both ends. -/
def Decimal.significant (ds : List Char) : List Char :=
  (ds.dropWhile (· == '0')).rdropWhile (· == '0')

/-- The size of the decimal that a numeral writes. -/
def Json.Numeral.size (n : Json.Numeral) : ℚ :=
  n.mantissa * 10 ^ n.scale

/-- Zeros at both ends do not count as digits. -/
theorem Decimal.length_significant_le (a z : Nat) (ds : List Char) :
    (significant (List.replicate a '0' ++ ds ++ List.replicate z '0')).length ≤ ds.length := by
  have hzeros (n : Nat) : (List.replicate n '0').dropWhile (· == '0') = [] := by
    rw [List.dropWhile_eq_nil_iff]
    intro c hc
    simp [List.eq_of_mem_replicate hc]
  have hright (es : List Char) : (es ++ List.replicate z '0').rdropWhile (· == '0') = es.rdropWhile (· == '0') := by
    rw [List.rdropWhile, List.reverse_append, List.reverse_replicate, List.dropWhile_append, hzeros]
    rfl
  unfold significant
  rw [List.append_assoc, List.dropWhile_append, hzeros, List.isEmpty_nil, if_pos rfl, List.dropWhile_append]
  split
  · rw [hzeros]
    simp
  · rw [hright]
    exact (List.rdropWhile_prefix _ _).length_le.trans (List.dropWhile_sublist _).length_le

/-- Digits that do not begin with zero, the first of them at a power of ten, are a decimal from this power on up to the
next one. -/
theorem Decimal.log_value {ds : List Char} (hds : ∀ c ∈ ds, isDigit c = true) (hne : ds ≠ [])
    (hhead : ds.head? ≠ some '0') (e : ℤ) : Int.log 10 (value ds * 10 ^ (e + 1 - ds.length : ℤ) : ℚ) = e := by
  have hlength := List.length_pos_of_ne_nil hne
  have hlow : ((10 ^ (ds.length - 1) : Nat) : ℚ) ≤ value ds := by exact_mod_cast pow_le_value hds hne hhead
  have hhigh : (value ds : ℚ) < ((10 ^ ds.length : Nat) : ℚ) := by exact_mod_cast value_lt hds
  have hp := Binary64.ten_zpow_pos (e + 1 - ds.length : ℤ)
  have hge : (10 : ℚ) ^ e ≤ value ds * 10 ^ (e + 1 - ds.length : ℤ) := by
    calc (10 : ℚ) ^ e = ((10 ^ (ds.length - 1) : Nat) : ℚ) * 10 ^ (e + 1 - ds.length : ℤ) := by
          rw [Nat.cast_pow, Nat.cast_ofNat, ← zpow_natCast, ← zpow_add₀ (by norm_num)]
          congr 1
          omega
      _ ≤ _ := mul_le_mul_of_nonneg_right hlow hp.le
  have hlt : value ds * 10 ^ (e + 1 - ds.length : ℤ) < (10 : ℚ) ^ (e + 1) := by
    calc (value ds : ℚ) * 10 ^ (e + 1 - ds.length : ℤ)
        < ((10 ^ ds.length : Nat) : ℚ) * 10 ^ (e + 1 - ds.length : ℤ) := mul_lt_mul_of_pos_right hhigh hp
      _ = 10 ^ (e + 1) := by
        rw [Nat.cast_pow, Nat.cast_ofNat, ← zpow_natCast, ← zpow_add₀ (by norm_num)]
        congr 1
        omega
  have hpos := (Binary64.ten_zpow_pos e).trans_le hge
  have hle := (Int.zpow_le_iff_le_log (b := 10) (by decide) hpos).mp (by exact_mod_cast hge)
  have hlt := (Int.lt_zpow_iff_log_lt (b := 10) (by decide) hpos).mp (by exact_mod_cast hlt)
  omega

namespace Json

/-! ## The notation -/

theorem not_isDigit_of_mem {c : Char} {ds : List Char} (hds : ∀ d ∈ ds, Decimal.isDigit d = true)
    (hc : Decimal.isDigit c = false) : c ∉ ds := by
  intro hmem
  rw [hds c hmem] at hc
  cases hc

/-- Positional notation has a point and no exponent. -/
theorem positional_point {ds : List Char} (hds : ∀ c ∈ ds, Decimal.isDigit c = true) (e : Int) :
    '.' ∈ Decimal.positional ds e ∧ 'e' ∉ Decimal.positional ds e := by
  have he := not_isDigit_of_mem hds (c := 'e') (by decide)
  unfold Decimal.positional
  split
  · simp [he]
  · simp only
    split
    · simp [he]
    · have htake : 'e' ∉ ds.take (e.toNat + 1) := fun h => he (List.mem_of_mem_take h)
      have hdrop : 'e' ∉ ds.drop (e.toNat + 1) := fun h => he (List.mem_of_mem_drop h)
      simp [htake, hdrop]

theorem exponent_mem_exponential (ds : List Char) (e : Int) : 'e' ∈ exponential ds e := by
  simp [exponential]

/-- The exponent is written exactly if the first digit is far from the point. -/
theorem exponent_mem_realText (x : Binary64) :
    'e' ∈ realText x ↔ ¬(-5 ≤ x.shortest.exponent ∧ x.shortest.exponent ≤ 15) := by
  have hdigits := (digits_of_whole (shortest_digits x).1).all
  unfold realText layout
  simp only
  split
  · next h =>
    have hnone := (positional_point hdigits x.shortest.exponent).2
    split <;> simp [hnone, h]
  · next h =>
    have hsome := exponent_mem_exponential x.shortest.digits x.shortest.exponent
    split <;> simp [hsome, h]

theorem point_or_exponent_mem_realText (x : Binary64) : '.' ∈ realText x ∨ 'e' ∈ realText x := by
  have hdigits := (digits_of_whole (shortest_digits x).1).all
  unfold realText
  simp only
  split
  · exact .inl (List.mem_append_right _ (positional_point hdigits _).1)
  · exact .inr (List.mem_append_right _ (exponent_mem_exponential _ _))

/-! ## The decimal that is written -/

/-- The decimal that is written has the size of the shortest digits. -/
theorem Numeral.Writes.size_eq {n : Numeral} {negative : Bool} {ds : List Char} {e : Int} (h : n.Writes negative ds e) :
    n.size = Decimal.value ds * 10 ^ (e + 1 - ds.length : ℤ) := by
  obtain ⟨z, hmantissa, hscale⟩ := h.value
  rw [size, hmantissa, hscale, Nat.cast_mul, mul_assoc, Nat.cast_pow, Nat.cast_ofNat, ← zpow_natCast,
    ← zpow_add₀ (by norm_num)]
  congr 2
  omega

/-- The decimal that is written is rounded to the number. -/
theorem Numeral.Writes.rounds {n : Numeral} {x : Binary64} (hfin : x.isFinite = true)
    (h : n.Writes x.negative x.shortest.digits x.shortest.exponent) : Binary64.Rounds n.negative n.size x := by
  rw [h.sign, h.size_eq]
  obtain ⟨-, -, ⟨hsig, hvalue⟩ | ⟨hsig, -, hnear⟩⟩ := shortest_digits x
  · rw [hvalue, Nat.cast_zero, zero_mul]
    exact Binary64.rounds_zero hfin hsig
  · exact (Binary64.rounds_iff_near hfin hsig _).mpr hnear

/-- Every decimal that is rounded to the number has at least the digits of the one that is written. -/
theorem Numeral.Writes.length_le {n : Numeral} {x : Binary64} (hfin : x.isFinite = true)
    (h : n.Writes x.negative x.shortest.digits x.shortest.exponent) {negative : Bool} {d : Nat} {k : ℤ}
    (hd : Binary64.Rounds negative (d * 10 ^ k) x) :
    (Decimal.significant (n.whole ++ n.fraction)).length ≤ (Decimal.digits d).length := by
  obtain ⟨a, z, hdigits, -⟩ := h.digits
  rw [hdigits]
  refine (Decimal.length_significant_le a z _).trans ?_
  by_cases hsig : x.significand = 0
  · rw [Binary64.shortest_zero hsig]
    exact List.length_pos_of_ne_nil (Decimal.digits_ne_nil d)
  · obtain rfl := hd.sign
    exact Binary64.length_shortest_le hfin hsig ((Binary64.rounds_iff_near hfin hsig _).mp hd)

/-- The first digit that is written stands at the exponent of the shortest digits. -/
theorem Numeral.Writes.log_size {n : Numeral} {x : Binary64}
    (h : n.Writes x.negative x.shortest.digits x.shortest.exponent) : Int.log 10 n.size = x.shortest.exponent := by
  rw [h.size_eq]
  obtain ⟨hwhole, hzero, -⟩ := shortest_digits x
  generalize x.shortest.digits = ds at hwhole hzero ⊢
  generalize x.shortest.exponent = e at hzero ⊢
  cases hwhole with
  | zero => simp [hzero rfl, Decimal.value_singleton]
  | digits hds hhead => exact Decimal.log_value hds.all hds.ne_nil hhead e

end Json

/-- The text of a served real, in the body and in the log. -/
theorem real_text (x : Binary64.Finite) :
    (∀ column, Fetch.json column (.real x.val) = .ok (.real x)) ∧
      (Json.real x).chars = Json.realText x.val ∧
      (Json.real x).inspection = "Number(".toList ++ Json.realText x.val ++ [')'] ∧
      ∃ n : Json.Numeral, Json.readNumeral? (Json.realText x.val) = some (n, []) ∧
        (∀ y, Binary64.Rounds n.negative n.size y ↔ y = x.val) ∧
        (∀ (negative : Bool) (d : Nat) (k : ℤ), Binary64.Rounds negative (d * 10 ^ k) x.val →
          (Decimal.significant (n.whole ++ n.fraction)).length ≤ (Decimal.digits d).length) ∧
        ('.' ∈ Json.realText x.val ∨ 'e' ∈ Json.realText x.val) ∧
        ('e' ∉ Json.realText x.val ↔ -5 ≤ Int.log 10 n.size ∧ Int.log 10 n.size ≤ 15) := by
  obtain ⟨n, hchars, hn⟩ := Json.exists_numeral_writes x.val
  have hread := Json.readNumeral?_append hn.wellFormed Json.ends_nil
  rw [List.append_nil, hchars] at hread
  have hrounds := hn.rounds x.property
  refine ⟨fun column => ?_, rfl, rfl, n, hread, fun y => ⟨fun hy => hy.eq hrounds, ?_⟩,
    fun negative d k hd => hn.length_le x.property hd, Json.point_or_exponent_mem_realText x.val, ?_⟩
  · have hnumber := Binary64.isNaN_of_isFinite x.property
    simp only [Fetch.json, hnumber, Bool.false_eq_true, if_false, x.property, dif_pos]
  · rintro rfl
    exact hrounds
  · rw [Json.exponent_mem_realText, not_not, hn.log_size]

/-- The least number above zero is told apart by one digit. -/
example : Json.realText ⟨1⟩ = "5e-324".toList := by decide +kernel

end FirstRow
