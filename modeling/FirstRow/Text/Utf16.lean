import FirstRow.Text.Utf8

/-!
# UTF-16 turned into UTF-8, and back

Text stored in UTF-16 is given out as UTF-8, pair of octets by pair of octets. A unit of the surrogate range takes
the next unit with it, whatever that is, so the text is not checked: an ill-formed one gives octets that no UTF-8
reader accepts, or characters that nobody wrote. A last single octet is dropped.

UTF-8 is not checked either when it is stored as UTF-16, so a text may have become another one when it is read again.
-/
namespace FirstRow.Text.Utf16

/-- Which octet of a unit comes first. -/
inductive Order where
  | littleEndian
  | bigEndian
deriving DecidableEq

/-- The unit that two octets make. -/
def Order.unit : Order → UInt8 → UInt8 → Nat
  | .littleEndian, a, b => a.toNat + 0x100 * b.toNat
  | .bigEndian, a, b => 0x100 * a.toNat + b.toNat

/-- The units of a text. -/
def units (o : Order) : List UInt8 → List Nat
  | a :: b :: rest => o.unit a b :: units o rest
  | _ => []

/-- The units of the surrogate range. -/
def isSurrogate (u : Nat) : Bool :=
  decide (0xD800 ≤ u) && decide (u < 0xE000)

/-- The code points of a run of units. A surrogate at the very end stands for itself. -/
def points : List Nat → List Nat
  | [] => []
  | [u] => [u]
  | u :: v :: rest =>
    if isSurrogate u then ((u % 0x400 + 0x40) * 0x400 + v % 0x400) :: points rest
    else u :: points (v :: rest)

/-- The text as UTF-8. -/
def toUtf8 (o : Order) (bs : List UInt8) : List UInt8 :=
  (points (units o bs)).flatMap Utf8.encodePoint

/-- The bits of a leading octet that belong to the code point. The greatest octets, with which no character begins,
have as many as are left. -/
def leadingBits (b : UInt8) : Nat :=
  if b < 0xE0 then b.toNat % 0x20
  else if b < 0xF0 then b.toNat % 0x10
  else if b < 0xF8 then b.toNat % 8
  else if b < 0xFC then b.toNat % 4
  else if b < 0xFE then b.toNat % 2
  else 0

/-- A code point that was read from several octets, with 32 bits. What should have had one octet, surrogates and the
last two code points of the basic plane become U+FFFD. -/
def checked (n : Nat) : Nat :=
  if n < 0x80 || isSurrogate n || n = 0xFFFE || n = 0xFFFF then 0xFFFD else n

/-- The code points of octets that ought to be UTF-8, where `reading` is what was read of a code point so far. A leading
octet takes all octets with it that continue a character; a continuing octet alone stands for itself. -/
def loosePoints : Option Nat → List UInt8 → List Nat
  | none, [] => []
  | some n, [] => [checked n]
  | reading, b :: rest =>
    match reading with
    | some n =>
      if Utf8.isContinuation b then loosePoints (some ((n * 0x40 + b.toNat % 0x40) % 0x100000000)) rest
      else checked n :: (if b < 0xC0 then b.toNat :: loosePoints none rest else loosePoints (some (leadingBits b)) rest)
    | none => if b < 0xC0 then b.toNat :: loosePoints none rest else loosePoints (some (leadingBits b)) rest

/-- The units of a code point of 32 bits: itself, or two units of the surrogate range that keep as many bits as they
can. -/
def looseUnits (n : Nat) : List Nat :=
  if n ≤ 0xFFFF then [n]
  else
    [0xD800 + (n - 0x10000) / 0x40000 % 4 * 0x100 + (n - 0x10000) / 0x10000 % 4 * 0x40 + n / 0x400 % 0x40,
      0xDC00 + n % 0x400]

/-- The octets of a unit. -/
def Order.octets : Order → Nat → List UInt8
  | .littleEndian, u => [(u % 0x100).toUInt8, (u / 0x100).toUInt8]
  | .bigEndian, u => [(u / 0x100).toUInt8, (u % 0x100).toUInt8]

/-- The octets that are stored for a text given as UTF-8. -/
def ofUtf8 (o : Order) (bs : List UInt8) : List UInt8 :=
  ((loosePoints none bs).flatMap looseUnits).flatMap o.octets

/-- The units of a scalar value: itself, or a surrogate pair above U+FFFF. -/
def unitsOfPoint (n : Nat) : List Nat :=
  if n < 0x10000 then [n] else [0xD800 + (n - 0x10000) / 0x400, 0xDC00 + (n - 0x10000) % 0x400]

/-- The octets of a text in UTF-16. -/
def encode (o : Order) (s : List Char) : List UInt8 :=
  s.flatMap fun c => (unitsOfPoint c.toNat).flatMap o.octets

end FirstRow.Text.Utf16
