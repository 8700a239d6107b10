import FirstRow.Binary64.Shortest
import FirstRow.Binary64.Wide

/-!
# Fifteen significant digits

A number rounded to fifteen significant digits, and its text. The digits are those of `Wide.toDecimal`, so that the
last one can be off by one where the number is very large or very small.
-/
namespace FirstRow.Binary64

/-- The magnitude of a finite number with fifteen significant digits, a half going up. -/
def significant (x : Binary64) : Digits :=
  if x.significand = 0 then ⟨['0'], 0⟩
  else
    let (m, e) := (Wide.ofBinary64 x).toDecimal
    let extra := (Decimal.digits m).length - 15
    let unit := Nat.pow 10 extra
    let ds := Decimal.digits ((m + unit / 2) / unit)
    ⟨dropZeros ds, e + extra + (ds.length - 1 : Nat)⟩

/-- The text of a number with fifteen significant digits: positional from a ten-thousandth up to below ten to the
fifteenth, and always with a fraction. An exponent has a sign and at least two digits. Zero has no sign. -/
def text (x : Binary64) : List Char :=
  if x.isNaN then "NaN".toList
  else
    let sign := if x.negative && x.significand ≠ 0 then ['-'] else []
    if !x.isFinite then sign ++ "Inf".toList
    else
      let d := x.significant
      if -4 ≤ d.exponent && d.exponent ≤ 14 then sign ++ Decimal.positional d.digits d.exponent
      else
        let n := d.exponent.natAbs
        let power := (if n < 10 then ['0'] else []) ++ Decimal.digits n
        sign ++ Decimal.positional d.digits 0 ++ 'e' :: (if d.exponent < 0 then '-' else '+') :: power

end FirstRow.Binary64
