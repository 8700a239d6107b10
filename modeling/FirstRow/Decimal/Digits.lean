/-!
# Decimal digits

Natural numbers and integers as decimal text, natural numbers read from it, and digits in positional notation.
-/
namespace FirstRow.Decimal

/-- The character of a digit. -/
def digitChar (d : Nat) : Char :=
  Char.ofNat (0x30 + d % 10)

/-- The value of a digit. -/
def digitValue (c : Char) : Nat :=
  c.toNat - 0x30

/-- Whether the character is one of the ten ASCII digits. -/
def isDigit (c : Char) : Bool :=
  decide ('0' ≤ c) && decide (c ≤ '9')

/-- The decimal digits of a number, without leading zeros; zero has one digit. -/
def digits (n : Nat) : List Char :=
  if n < 10 then [digitChar n] else digits (n / 10) ++ [digitChar n]
termination_by n

/-- An integer in decimal, with a sign only below zero. -/
def integer : Int → List Char
  | .ofNat n => digits n
  | .negSucc n => '-' :: digits (n + 1)

/-- The number that a run of digits writes. -/
def value (ds : List Char) : Nat :=
  ds.foldl (fun n c => 10 * n + digitValue c) 0

/-- The digits in positional notation, the first of them at the power `e` of ten. -/
def positional (ds : List Char) (e : Int) : List Char :=
  if e < 0 then
    '0' :: '.' :: List.replicate (-e - 1).toNat '0' ++ ds
  else
    let whole := e.toNat + 1
    if ds.length ≤ whole then
      ds ++ List.replicate (whole - ds.length) '0' ++ ['.', '0']
    else
      ds.take whole ++ '.' :: ds.drop whole

end FirstRow.Decimal
