import FirstRow.Binary64.Basic

/-!
# Rounding to the nearest binary64 number

`ofRatio` is the number nearest to a quotient of natural numbers, and of two equally near ones that with an even
significand. Integers and decimals are rounded through it.
-/
namespace FirstRow.Binary64

/-- The whole number nearest to a quotient, a half going to the even neighbour. -/
def roundDiv (num den : Nat) : Nat :=
  let q := num / den
  let r := num % den
  if 2 * r < den then q
  else if den < 2 * r then q + 1
  else if q % 2 = 0 then q else q + 1

/-- Whether `2 ^ s` is at most the quotient. -/
def powLe (s : Int) (num den : Nat) : Bool :=
  if 0 ≤ s then decide (den <<< s.toNat ≤ num) else decide (den ≤ num <<< (-s).toNat)

/-- The exponent of the grid on which a positive quotient is rounded: fifty-three bits, fewer near zero. -/
def gridExponent (num den : Nat) : Int :=
  let s : Int := num.log2 - den.log2
  let top := if powLe s num den then s else s - 1
  max (top - 52) (-1074)

/-- The binary64 number nearest to a quotient with the given sign; beyond the largest one, infinity. -/
def ofRatio (negative : Bool) (num den : Nat) : Binary64 :=
  if num = 0 then ofMagnitude negative 0
  else
    let e := gridExponent num den
    let q := if 0 ≤ e then roundDiv num (den <<< e.toNat) else roundDiv (num <<< (-e).toNat) den
    let magnitude := (e + 1074).toNat * 0x10000000000000 + q
    if magnitude < 0x7FF0000000000000 then ofMagnitude negative magnitude else infinity negative

/-- The binary64 number nearest to an integer. -/
def ofInt (n : Int) : Binary64 :=
  ofRatio (decide (n < 0)) n.natAbs 1

/-- The binary64 number nearest to `± m · 10 ^ e`. Exponents that decide the answer alone are cut short, so that
the powers stay small. -/
def ofDecimal (negative : Bool) (m : Nat) (e : Int) : Binary64 :=
  if m = 0 then ofMagnitude negative 0
  else if 400 < e then infinity negative
  else if e < -400 - 4 * (m.log2 + 1 : Nat) then ofMagnitude negative 0
  else if 0 ≤ e then ofRatio negative (m * Nat.pow 10 e.toNat) 1
  else ofRatio negative m (Nat.pow 10 (-e).toNat)

end FirstRow.Binary64
