import FirstRow.Binary64.Basic
import FirstRow.Text.Utf16

/-!
# Stored values

The five storage classes, and how a serial type and its octets make a value of one of them.
-/
namespace FirstRow.Store

/-- A stored value. Text is kept as octets that ought to be UTF-8. -/
inductive Datum where
  | null
  | integer (n : Int)
  | real (x : Binary64)
  | text (octets : List UInt8)
  | blob (octets : List UInt8)
deriving DecidableEq

/-- How the texts of a file are encoded. -/
inductive Encoding where
  | utf8
  | utf16 (order : Text.Utf16.Order)
deriving DecidableEq

namespace Encoding

/-- The encoding with the given number in a header; the low two bits count, and zero stands for UTF-8. -/
def ofCode (n : Nat) : Encoding :=
  match n % 4 with
  | 2 => .utf16 .littleEndian
  | 3 => .utf16 .bigEndian
  | _ => .utf8

/-- Stored octets as UTF-8. -/
def toUtf8 : Encoding → List UInt8 → List UInt8
  | .utf8, bs => bs
  | .utf16 order, bs => Text.Utf16.toUtf8 order bs

/-- Stored octets as UTF-8, where a byte-order mark at the start is taken as one: it decides the order of the
octets and is no part of the text. -/
def toUtf8WithMark : Encoding → List UInt8 → List UInt8
  | .utf8, bs => bs
  | .utf16 order, bs =>
    match bs with
    | 0xFE :: 0xFF :: rest => Text.Utf16.toUtf8 .bigEndian rest
    | 0xFF :: 0xFE :: rest => Text.Utf16.toUtf8 .littleEndian rest
    | _ => Text.Utf16.toUtf8 order bs

/-- The octets that are stored for a text. -/
def ofUtf8 : Encoding → List UInt8 → List UInt8
  | .utf8, bs => bs
  | .utf16 order, bs => Text.Utf16.ofUtf8 order bs

/-- What is read of a text that was stored. -/
def stored (e : Encoding) (bs : List UInt8) : List UInt8 :=
  e.toUtf8 (e.ofUtf8 bs)

end Encoding

/-- A number whose octets stand most significant first. -/
def bigEndian (bs : List UInt8) : Nat :=
  bs.foldl (fun n b => n * 0x100 + b.toNat) 0

/-- A number in two's complement whose octets stand most significant first. -/
def twosComplement (bs : List UInt8) : Int :=
  let n := bigEndian bs
  let size := Nat.pow 0x100 bs.length
  if 2 * n < size then n else (n : Int) - size

/-- How many octets a value of a serial type takes. -/
def serialSize (t : Nat) : Nat :=
  if t < 12 then [0, 1, 2, 3, 4, 6, 8, 8, 0, 0, 0, 0].getD t 0 else (t - 12) / 2

/-- The value of a serial type, where `asText` turns stored octets into UTF-8. A NaN is no value. -/
def Datum.ofSerial (asText : List UInt8 → List UInt8) (t : Nat) (bs : List UInt8) : Datum :=
  if t = 0 then .null
  else if t ≤ 6 then .integer (twosComplement bs)
  else if t = 7 then
    let x : Binary64 := ⟨(bigEndian bs).toUInt64⟩
    if x.isNaN then .null else .real x
  else if t = 8 then .integer 0
  else if t = 9 then .integer 1
  else if t < 12 then .null
  else if t % 2 = 0 then .blob bs
  else .text (asText bs)

end FirstRow.Store
