import FirstRow.Binary64.Basic
import FirstRow.Decimal.Digits

/-!
# The shortest decimal of a binary64 number

`shortest` gives the fewest significant digits that read back as the same number, and of several such decimals the
one nearest to the number; an exact tie goes to the even last digit.

All arithmetic is exact. A positive number is `num / den`, and the reals that round to it lie between two quotients
with the same denominator; they include the ends exactly if the significand is even. On the grid of a given number
of digits only the two neighbours of the number can be in reach: if any point of the grid lies in the interval, so
does one of them.
-/
namespace FirstRow.Binary64

/-- A positive number and the interval that rounds to it, over one denominator. -/
structure Interval where
  value : Nat
  low : Nat
  high : Nat
  den : Nat
  closed : Bool

/-- The interval of a finite number other than zero. Just above a power of two the neighbour below is only half as
far as the one above. -/
def interval (x : Binary64) : Interval :=
  let m := x.significand
  let below := if x.fractionField = 0 ∧ 1 < x.exponentField then 1 else 2
  let e := x.exponent - 2
  let scale := 1 <<< e.toNat
  { value := 4 * m * scale
    low := (4 * m - below) * scale
    high := (4 * m + 2) * scale
    den := 1 <<< (-e).toNat
    closed := decide (m % 2 = 0) }

/-- A power of ten as a fraction. -/
def powTen (k : Int) : Nat × Nat :=
  (Nat.pow 10 k.toNat, Nat.pow 10 (-k).toNat)

/-- Whether `d · 10 ^ k` reads back as the number. -/
def Interval.admits (i : Interval) (d : Nat) (k : Int) : Bool :=
  let (up, down) := powTen k
  let point := d * up * i.den
  if i.closed then decide (i.low * down ≤ point) && decide (point ≤ i.high * down)
  else decide (i.low * down < point) && decide (point < i.high * down)

/-- The exponent of the first digit: the greatest `e` with `10 ^ e` at most the number, looked for from `308`
downwards. -/
def Interval.leadingExponent (i : Interval) : Int :=
  go 640 308
where
  /-- Step down until the power fits. -/
  go : Nat → Int → Int
    | 0, e => e
    | fuel + 1, e =>
      let (up, down) := powTen e
      if up * i.den ≤ i.value * down then e else go fuel (e - 1)

/-- The point of the grid `10 ^ k` that is nearest to the number among its two neighbours that read back, if any. -/
def Interval.nearest? (i : Interval) (k : Int) : Option Nat :=
  let (up, down) := powTen k
  let num := i.value * down
  let den := i.den * up
  let d := num / den
  let r := num % den
  match i.admits d k, i.admits (d + 1) k with
  | false, false => none
  | true, false => some d
  | false, true => some (d + 1)
  | true, true =>
    if 2 * r < den then some d
    else if den < 2 * r then some (d + 1)
    else if d % 2 = 0 then some d else some (d + 1)

/-- Digits and the exponent of the first of them. -/
structure Digits where
  digits : List Char
  exponent : Int
deriving DecidableEq

/-- Drop the zeros at the end. -/
def dropZeros (ds : List Char) : List Char :=
  (ds.reverse.dropWhile (· == '0')).reverse

/-- Try one more digit at a time. Seventeen always suffice. -/
def Interval.search (i : Interval) (e : Int) : Nat → Nat → Digits
  | 0, _ => ⟨['0'], 0⟩
  | fuel + 1, n =>
    let k := e - n
    match i.nearest? k with
    | some d =>
      let ds := Decimal.digits d
      ⟨dropZeros ds, k + (ds.length - 1 : Nat)⟩
    | none => i.search e fuel (n + 1)

/-- The shortest digits of the magnitude of a finite number. -/
def shortest (x : Binary64) : Digits :=
  if x.significand = 0 then ⟨['0'], 0⟩
  else
    let i := x.interval
    i.search i.leadingExponent 18 0

end FirstRow.Binary64
