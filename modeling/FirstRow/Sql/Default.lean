import FirstRow.Sql.Affinity
import FirstRow.Sql.Expr.Basic

/-!
# Default values

A record can be shorter than its table is wide, and the columns that it lacks then take their defaults. Only literals,
with signs and casts, have a value for this purpose; every other expression stands for no value. Numeric literals of
more than 31 bits count as texts that may be numbers, and texts are kept in the encoding of the database.
-/
namespace FirstRow.Sql

open FirstRow.Store (Datum Encoding)

namespace Default

/-- A value on the way to a default. A blob that was made from a text can be taken for that text again, while the
octets of any other blob count one by one. -/
inductive Interim where
  | plain (d : Datum)
  | textBlob (text : List UInt8)

/-- The value that is stored. -/
def Interim.datum (enc : Encoding) : Interim → Datum
  | plain d => d
  | textBlob s => .blob (enc.ofUtf8 s)

/-- A value as a column of an affinity stores it. -/
def Interim.apply (a : Affinity) : Interim → Interim
  | plain d => plain (a.apply d)
  | textBlob s => textBlob s

/-- The number that a text counts as: the numeral at its head. In a text that is cut off by a character that no numeral
can come in front of only the whole digits count. -/
def numberOf (cutOff : Bool) (bs : List UInt8) : Datum :=
  let n := Numeral.read bs
  let fails :=
    cutOff || (!n.isNumber && !(n.hasDigits && !n.isPlain && (n.wellFormed || (n.hasFraction && n.hasExponent))))
  if (fails || (n.isNumber && n.isPlain)) && isInt64 n.toInt then .integer n.toInt
  else
    let x := n.toReal
    match x.int64? with
    | some k => if -0x8000000000000 ≤ k ∧ k < 0x8000000000000 then .integer k else .real x
    | none => .real x

/-- Whether a text in UTF-16 has characters beyond U+00FF. -/
def hasWide : Encoding → List UInt8 → Bool
  | .utf8, _ => false
  | .utf16 _, bs => bs.any (0xC4 ≤ ·)

/-- A value taken for a number. -/
def asNumber (enc : Encoding) : Interim → Datum
  | .textBlob s | .plain (.text s) => numberOf (hasWide enc s) s
  | .plain (.blob bs) => numberOf false bs
  | .plain d => d

/-- The number with the other sign. The least integer has no counterpart and becomes a real. -/
def negate : Datum → Datum
  | .integer n => if n = -0x8000000000000000 then .real (.ofInt 0x8000000000000000) else .integer (-n)
  | .real x => .real x.negate
  | d => d

/-- The octets of a blob as a text. In a database with two octets to a unit the last one may be left over. -/
def textOfBlob (enc : Encoding) (bs : List UInt8) : List UInt8 :=
  match enc with
  | .utf8 => bs
  | .utf16 _ => enc.stored (bs.take (bs.length - bs.length % 2))

/-- A value as a blob. -/
def toBlob : Datum → Interim
  | .blob bs => .plain (.blob bs)
  | d => match Affinity.textOfNumber d with
    | .text s => .textBlob s
    | d => .plain d

/-- A value as a text. -/
def toText (enc : Encoding) : Interim → Datum
  | .textBlob s => .text s
  | .plain (.blob bs) => .text (textOfBlob enc bs)
  | .plain d => Affinity.textOfNumber d

/-- A value as an integer. -/
def toInteger : Datum → Datum
  | .real x => .integer x.toInt64
  | .text bs | .blob bs => .integer (clampInt64 (Numeral.read bs).toInt)
  | d => d

/-- A value as a real. -/
def toReal : Datum → Datum
  | .integer n => .real (.ofInt n)
  | .text bs | .blob bs => .real (Numeral.read bs).toReal
  | d => d

/-- Cast a value to the affinity of a type. -/
def castTo (enc : Encoding) : Affinity → Interim → Interim
  | .blob, .plain d => toBlob d
  | .blob, .textBlob s => .textBlob s
  | .text, v => .plain (toText enc v)
  | .numeric, v => .plain (asNumber enc v)
  | .integer, .textBlob s => .plain (toInteger (.text s))
  | .integer, .plain d => .plain (toInteger d)
  | .real, .textBlob s => .plain (toReal (.text s))
  | .real, .plain d => .plain (toReal d)

/-- The text of a literal with a sign. -/
def signed (negative : Bool) (text : List UInt8) : List UInt8 :=
  if negative then 0x2D :: text else text

/-- The value of a numeric literal as text, for a column of an affinity. A column that leaves values as they are takes
the number, not its text. -/
def ofNumberText (a : Affinity) (text : List UInt8) : Datum :=
  (if a = .blob then Affinity.numeric else a).apply (.text text)

/-- The value of an integer literal, which may have a minus sign, for a column of an affinity. One that has more than
31 bits counts as text that may be a number; hexadecimal digits never are one. -/
def ofInteger (a : Affinity) (negative : Bool) (digits : List UInt8) : Datum :=
  match smallInteger? digits with
  | some n => a.apply (.integer (if negative then -n else n))
  | none => ofNumberText a (signed negative digits)

/-- The value of a string for a column of an affinity. -/
def ofString (enc : Encoding) (a : Affinity) (s : List UInt8) : Datum :=
  match a.apply (.text s) with
  | .text s => .text (enc.stored s)
  | d => d

/-- The value of an expression for a column of an affinity, if it has one. -/
def value? (enc : Encoding) : Affinity → Expr → Option Interim
  | _, .null | _, .variable => some (.plain .null)
  | a, .integer ds => some (.plain (ofInteger a false ds))
  | a, .real t => some (.plain (ofNumberText a t))
  | a, .string s => some (.plain (ofString enc a s))
  | _, .blob c => some (.plain (.blob c))
  | a, .truth b => some (.plain (a.apply (.integer (if b then 1 else 0))))
  | a, .name n => n.truth?.map fun b => .plain (a.apply (.integer (if b then 1 else 0)))
  | a, .positive e => value? enc a e
  | a, .negative (.integer ds) => some (.plain (ofInteger a true ds))
  | a, .negative (.real t) => some (.plain (ofNumberText a (signed true t)))
  | a, .negative e => (value? enc a e).map fun v => .plain (a.apply (negate (asNumber enc v)))
  | a, .cast e t =>
    let b := (Affinity.ofText (ColumnType.unquoteFirst t)).1
    (value? enc b e).map fun v => (castTo enc b v).apply a
  | _, _ => none

end Default

/-- The value that a default expression gives to a column of an affinity; an expression without a value gives no
value. -/
def defaultValue (enc : Encoding) (a : Affinity) (e : Expr) : Datum :=
  match Default.value? enc a e with
  | some v => v.datum enc
  | none => .null

end FirstRow.Sql
