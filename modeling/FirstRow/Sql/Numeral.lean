import FirstRow.Binary64.Wide
import FirstRow.Binary64.Whole
import FirstRow.Text.Octet

/-!
# Numerals in texts

A text can begin with a numeral: blanks, a sign, digits, a fraction, an exponent. `Numeral.read` finds it and says
whether it is all there is, which decides whether a text counts as a number.
-/
namespace FirstRow.Sql

/-- The numeral at the head of a text. -/
structure Numeral where
  negative : Bool
  /-- The digits as a whole number; those beyond nineteen or twenty only scale it. -/
  significand : Nat
  /-- The power of ten that scales the significand. -/
  exponent : Int
  hasDigits : Bool
  hasFraction : Bool
  hasExponent : Bool
  /-- An exponent, if there is one, has digits. -/
  wellFormed : Bool
  /-- The value of the whole digits alone. -/
  whole : Nat
  /-- Only blanks follow. -/
  complete : Bool

namespace Numeral

/-- A significand that has grown so far takes no more digits. -/
def fullSignificand : Nat := (0xFFFFFFFFFFFFFFFF - 9) / 10

/-- Take a whole digit. The first part of the state is the significand, the second the digits left out. -/
def takeWhole (s : Nat × Nat) (b : UInt8) : Nat × Nat :=
  if fullSignificand ≤ s.1 then (s.1, s.2 + 1) else (10 * s.1 + (b.toNat - 0x30), s.2)

/-- Take a digit of a fraction. The second part of the state is the digits taken. -/
def takeFraction (s : Nat × Nat) (b : UInt8) : Nat × Nat :=
  if s.1 < fullSignificand then (10 * s.1 + (b.toNat - 0x30), s.2 + 1) else s

/-- An exponent counts up to a bound. -/
def takePower (e : Nat) (b : UInt8) : Nat :=
  if e < 10000 then 10 * e + (b.toNat - 0x30) else 10000

/-- Read the numeral at the head of a text. -/
def read (bs : List UInt8) : Numeral :=
  let bs := bs.dropWhile Text.Octet.isBlank
  let negative := bs.head? = some 0x2D
  let bs := if negative || bs.head? = some 0x2B then bs.drop 1 else bs
  let whole := bs.takeWhile Text.Octet.isDigit
  let (m, extra) := whole.foldl takeWhole (0, 0)
  let bs := bs.drop whole.length
  let hasFraction := bs.head? = some 0x2E
  let bs := if hasFraction then bs.drop 1 else bs
  let fraction := if hasFraction then bs.takeWhile Text.Octet.isDigit else []
  let (m, taken) := fraction.foldl takeFraction (m, 0)
  let bs := bs.drop fraction.length
  let hasExponent := bs.head? = some 0x65 || bs.head? = some 0x45
  let bs := if hasExponent then bs.drop 1 else bs
  let below := hasExponent && bs.head? = some 0x2D
  let bs := if hasExponent && (below || bs.head? = some 0x2B) then bs.drop 1 else bs
  let power := if hasExponent then bs.takeWhile Text.Octet.isDigit else []
  let bs := bs.drop power.length
  let p : Int := (power.foldl takePower 0 : Nat)
  { negative
    significand := m
    exponent := (if below then -p else p) + extra - taken
    hasDigits := !whole.isEmpty || !fraction.isEmpty
    hasFraction
    hasExponent
    wellFormed := !hasExponent || !power.isEmpty
    whole := Text.Octet.value whole
    complete := (bs.dropWhile Text.Octet.isBlank).isEmpty }

/-- The nearest real. -/
def toReal (n : Numeral) : Binary64 :=
  Wide.ofDecimal n.negative n.significand n.exponent

/-- The whole digits with the sign, not bounded. -/
def toInt (n : Numeral) : Int :=
  if n.negative then -(n.whole : Int) else n.whole

/-- Whether the text is a number and nothing else. -/
def isNumber (n : Numeral) : Bool :=
  n.complete && n.hasDigits && n.wellFormed

/-- Whether the numeral is written without fraction and exponent. -/
def isPlain (n : Numeral) : Bool :=
  !n.hasFraction && !n.hasExponent

end Numeral
end FirstRow.Sql
