/-!
# Binary64 numbers

Reals are kept as their 64 bits, so that every statement about them is one about natural numbers. A finite value is
`±significand · 2 ^ exponent`.
-/
namespace FirstRow

/-- The bit pattern of an IEEE 754 binary64 number. -/
structure Binary64 where
  bits : UInt64
deriving DecidableEq

namespace Binary64

/-- The sign bit: set for negative values and for minus zero. -/
def negative (x : Binary64) : Bool :=
  decide (0x8000000000000000 ≤ x.bits.toNat)

/-- The eleven bits of the exponent. -/
def exponentField (x : Binary64) : Nat :=
  x.bits.toNat / 0x10000000000000 % 0x800

/-- The fifty-two bits of the fraction. -/
def fractionField (x : Binary64) : Nat :=
  x.bits.toNat % 0x10000000000000

/-- Neither infinite nor a NaN. -/
def isFinite (x : Binary64) : Bool :=
  decide (x.exponentField < 2047)

/-- Not a number. -/
def isNaN (x : Binary64) : Bool :=
  decide (x.exponentField = 2047) && decide (x.fractionField ≠ 0)

/-- The whole number that is scaled: the fraction, with the leading bit that normal numbers leave out. -/
def significand (x : Binary64) : Nat :=
  if x.exponentField = 0 then x.fractionField else 0x10000000000000 + x.fractionField

/-- The power of two that scales the significand. -/
def exponent (x : Binary64) : Int :=
  (max x.exponentField 1 : Nat) - 1075

/-- The number with the same magnitude and the other sign. -/
def negate (x : Binary64) : Binary64 :=
  ⟨x.bits ^^^ 0x8000000000000000⟩

/-- Infinity of the given sign. -/
def infinity (negative : Bool) : Binary64 :=
  ⟨if negative then 0xFFF0000000000000 else 0x7FF0000000000000⟩

/-- The bit pattern of a sign and of a magnitude below that of infinity. -/
def ofMagnitude (negative : Bool) (magnitude : Nat) : Binary64 :=
  ⟨((if negative then 0x8000000000000000 else 0) + magnitude).toUInt64⟩

/-- The finite numbers. -/
abbrev Finite := { x : Binary64 // x.isFinite = true }

end Binary64
end FirstRow
