import FirstRow.Binary64.Shortest

/-!
# The text of a real

A real is written with its shortest digits. `layout` says where positional notation ends; outside it one digit
stands before the point and the exponent follows. Positional text always has a fractional digit and exponential text
an exponent, so a real is never taken for an integer.
-/
namespace FirstRow.Json

/-- The exponents of the first digit for which a number is written positionally. -/
structure RealLayout where
  leastPositional : Int
  greatestPositional : Int

/-- From one hundred-thousandth up to below ten to the sixteenth numbers are positional. -/
def layout : RealLayout := ⟨-5, 15⟩

/-- The digits in exponential notation. A single digit stands without a point, and the exponent has its sign
always. -/
def exponential (ds : List Char) (e : Int) : List Char :=
  let mantissa := match ds with
    | [] => []
    | [d] => [d]
    | d :: rest => d :: '.' :: rest
  let power := if e < 0 then '-' :: Decimal.digits e.natAbs else '+' :: Decimal.digits e.natAbs
  mantissa ++ 'e' :: power

/-- The text of a finite number. -/
def realText (x : Binary64) : List Char :=
  let d := x.shortest
  let sign := if x.negative then ['-'] else []
  if layout.leastPositional ≤ d.exponent ∧ d.exponent ≤ layout.greatestPositional then
    sign ++ Decimal.positional d.digits d.exponent
  else
    sign ++ exponential d.digits d.exponent

end FirstRow.Json
