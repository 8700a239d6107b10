import FirstRow.Binary64.Rounding

/-!
# Decimals in steps

A decimal literal is read with 64 significant bits: its digits make a whole number, which is multiplied by powers of
ten one after the other. Every product is rounded to 64 significant bits, and only the last one to a binary64 number.
`toDecimal` goes the other way: it multiplies by powers of ten until the whole part has eighteen or nineteen digits.
-/
namespace FirstRow

/-- A positive number `significand · 2 ^ exponent`, with 64 significant bits. -/
structure Wide where
  significand : Nat
  exponent : Int

namespace Wide

/-- The number nearest to a positive quotient. -/
def ofRatio (num den : Nat) : Wide :=
  let s : Int := num.log2 - den.log2
  let top := if Binary64.powLe s num den then s else s - 1
  let e := top - 63
  ⟨if 0 ≤ e then Binary64.roundDiv num (den <<< e.toNat) else Binary64.roundDiv (num <<< (-e).toNat) den, e⟩

/-- The number nearest to a product. -/
def mul (a b : Wide) : Wide :=
  let w := ofRatio (a.significand * b.significand) 1
  ⟨w.significand, w.exponent + a.exponent + b.exponent⟩

/-- The nearest binary64 number, with a sign. -/
def toBinary64 (negative : Bool) (w : Wide) : Binary64 :=
  Binary64.ofRatio negative (w.significand <<< w.exponent.toNat) (1 <<< (-w.exponent).toNat)

/-- Multiply by a number several times. -/
def times (factor : Wide) (n : Nat) (w : Wide) : Wide :=
  n.repeat (mul · factor) w

/-- The number nearest to a power of ten. -/
def powTen (k : Int) : Wide :=
  if 0 ≤ k then ofRatio (Nat.pow 10 k.toNat) 1 else ofRatio 1 (Nat.pow 10 (-k).toNat)

/-- Multiply by a power of ten: by hundredth powers first, then by tenth powers, then by ten. -/
def scale (e : Int) (w : Wide) : Wide :=
  let n := e.natAbs
  let power (k : Nat) : Wide := powTen (if 0 < e then k else -k)
  times (power 1) (n % 10) (times (power 10) (n % 100 / 10) (times (power 100) (n / 100) w))

/-- The greatest number of 64 bits without a sign. -/
def maxWord : Nat := 0xFFFFFFFFFFFFFFFF

/-- Move factors of ten from the power into the whole number as long as there is room, or the other way round as long
as they divide it. At most twenty can be moved. -/
def settle : Nat → Nat → Int → Nat × Int
  | 0, m, e => (m, e)
  | fuel + 1, m, e =>
    if 0 < e && m < maxWord / 10 then settle fuel (m * 10) (e - 1)
    else if e < 0 && m % 10 = 0 then settle fuel (m / 10) (e + 1)
    else (m, e)

/-- Read `± m · 10 ^ e`, where `m` has 64 bits. Powers far beyond the range of binary64 numbers need not be computed. -/
def ofDecimal (negative : Bool) (m : Nat) (e : Int) : Binary64 :=
  if m = 0 then Binary64.ofMagnitude negative 0
  else if 400 < e then Binary64.infinity negative
  else if e < -400 then Binary64.ofMagnitude negative 0
  else
    let (m, e) := settle 20 m e
    if e = 0 then Binary64.ofRatio negative m 1 else toBinary64 negative (scale e (ofRatio m 1))

/-- The magnitude of a finite binary64 number that is not zero. -/
def ofBinary64 (x : Binary64) : Wide :=
  let w := ofRatio x.significand 1
  ⟨w.significand, w.exponent + x.exponent⟩

/-- Whether a number is at most as great as another one. -/
def le (a b : Wide) : Bool :=
  let e := min a.exponent b.exponent
  a.significand <<< (a.exponent - e).toNat ≤ b.significand <<< (b.exponent - e).toNat

/-- The whole part. -/
def whole (w : Wide) : Nat :=
  w.significand <<< w.exponent.toNat >>> (-w.exponent).toNat

/-- Multiply by a factor as long as a property holds, at most `n` times. Gives also how often that was. -/
def timesWhile (p : Wide → Bool) (factor : Wide) : Nat → Wide → Wide × Nat
  | 0, w => (w, 0)
  | n + 1, w =>
    if p w then
      let (v, k) := timesWhile p factor n (w.mul factor)
      (v, k + 1)
    else (w, 0)

/-- Divide by `10 ^ k` as long as the number is not below `10 ^ bound`. The second part of the state is the power of
ten that undoes it. -/
def descend (s : Wide × Int) (bound k : Nat) : Wide × Int :=
  let (w, n) := timesWhile ((powTen bound).le ·) (powTen (-k)) 20 s.1
  (w, s.2 + (k * n : Nat))

/-- Multiply by `10 ^ k` as long as the number is below `10 ^ bound`. -/
def ascend (s : Wide × Int) (bound : Int) (k : Nat) : Wide × Int :=
  let (w, n) := timesWhile (!(powTen bound).le ·) (powTen k) 20 s.1
  (w, s.2 - (k * n : Nat))

/-- A positive number as a whole number of eighteen or nineteen digits and the power of ten that scales it. What is
behind the last of these digits is dropped. -/
def toDecimal (w : Wide) : Nat × Int :=
  let (w, e) :=
    if (powTen 19).le w then descend (descend (descend (w, 0) 119 100) 29 10) 19 1
    else ascend (ascend (ascend (w, 0) (-97) 100) 7 10) 17 1
  (w.whole, e)

end Wide
end FirstRow
