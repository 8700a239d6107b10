import FirstRow.Binary64.Rounding

/-!
# Whole numbers among the binary64 numbers

The whole part of a number, and the numbers that are whole and have an integer of 64 bits of their own.
-/
namespace FirstRow

/-- The integers of 64 bits. -/
def isInt64 (n : Int) : Bool :=
  decide (-0x8000000000000000 ≤ n) && decide (n < 0x8000000000000000)

/-- The integer of 64 bits that is nearest to an integer. -/
def clampInt64 (n : Int) : Int :=
  max (-0x8000000000000000) (min n 0x7FFFFFFFFFFFFFFF)

namespace Binary64

/-- The whole part of a finite number: what is left without the fraction. -/
def wholePart (x : Binary64) : Int :=
  let m := if 0 ≤ x.exponent then x.significand <<< x.exponent.toNat else x.significand >>> (-x.exponent).toNat
  if x.negative then -(m : Int) else m

/-- Whether a finite number has no fraction. -/
def isWhole (x : Binary64) : Bool :=
  decide (0 ≤ x.exponent) || decide (x.significand % (1 <<< (-x.exponent).toNat) = 0)

/-- The integer that a number is, if it lies strictly between the least and the greatest integer of 64 bits. Minus
zero is zero. -/
def int64? (x : Binary64) : Option Int :=
  let n := x.wholePart
  if x.isFinite && x.isWhole && decide (-0x8000000000000000 < n) && decide (n < 0x7FFFFFFFFFFFFFFF) then some n else none

/-- The whole part of a number as an integer of 64 bits. -/
def toInt64 (x : Binary64) : Int :=
  if x.isFinite then clampInt64 x.wholePart
  else if x.isNaN then 0
  else if x.negative then -0x8000000000000000 else 0x7FFFFFFFFFFFFFFF

end Binary64
end FirstRow
