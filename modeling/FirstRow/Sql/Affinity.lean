import FirstRow.Binary64.Significant
import FirstRow.Sql.Lexeme
import FirstRow.Sql.Numeral
import FirstRow.Store.Datum

/-!
# Types and affinities

A declared type is any text. It gives a column an affinity, which says what values are turned into before they are
stored, and an estimate of how wide its values are.
-/
namespace FirstRow.Sql

open FirstRow.Store (Datum)

/-- What a column turns values into. -/
inductive Affinity where
  /-- Values stay as they are. -/
  | blob
  | text
  | numeric
  | integer
  | real
deriving DecidableEq

namespace Affinity

/-- The affinity after a type was seen up to and with a four-letter part, where `part` holds its last letters in
reverse, and `a` is the affinity so far. -/
def afterPart (a : Affinity) (part : List UInt8) : Affinity :=
  let last (w : String) : Bool := part.reverse = Text.Utf8.ofString w
  if last "char" || last "clob" || last "text" then .text
  else if last "blob" && (a = .numeric || a = .real) then .blob
  else if (last "real" || last "floa" || last "doub") && a = .numeric then .real
  else a

/-- Scan the rest of a type with the affinity so far, where `part` holds the last letters read, in lower case and in
reverse, and `size` is the text in which the width of the values is looked for. The letters `int` end the scan. -/
def scan (a : Affinity) (size : Option (List UInt8)) (part : List UInt8) :
    List UInt8 → Affinity × Option (List UInt8)
  | [] => (a, size)
  | b :: rest =>
    let part := (Text.Octet.lower b :: part).take 4
    if (part.take 3).reverse = Text.Utf8.ofString "int" then (.integer, size)
    else
      let size :=
        if part.reverse = Text.Utf8.ofString "char" then some rest
        else if part.reverse = Text.Utf8.ofString "blob" && (a = .numeric || a = .real) && rest.head? = some 0x28 then
          some rest
        else size
      scan (afterPart a part) size part rest

/-- The affinity of a type, and the text in which the width of its values is looked for. -/
def ofText (type : List UInt8) : Affinity × Option (List UInt8) :=
  scan .numeric none [] type

/-- A real as an integer, if it is one; any other value as it is. -/
def preferInteger : Datum → Datum
  | .real x => match x.int64? with
    | some n => .integer n
    | none => .real x
  | d => d

/-- A text that is a number as that number; any other text as it is. -/
def numberOfText (bs : List UInt8) : Datum :=
  let n := Numeral.read bs
  if !n.isNumber then .text bs
  else if n.isPlain && isInt64 n.toInt then .integer n.toInt
  else preferInteger (.real n.toReal)

/-- A number as text. -/
def textOfNumber : Datum → Datum
  | .integer n => .text (Text.Utf8.encode (Decimal.integer n))
  | .real x => .text (Text.Utf8.encode x.text)
  | d => d

/-- Turn a value into what a column of an affinity stores. -/
def apply : Affinity → Datum → Datum
  | .blob, d => d
  | .text, d => textOfNumber d
  | _, .text bs => numberOfText bs
  | _, d => preferInteger d

/-- What is read from a column of an affinity, given what is stored: reals may be stored as integers. -/
def onRead : Affinity → Datum → Datum
  | .real, .integer n => .real (.ofInt n)
  | _, d => d

end Affinity

/-- The names of types that mean what they say. -/
inductive StandardType where
  | any
  | blob
  | int
  | integer
  | real
  | text
deriving DecidableEq

namespace StandardType

/-- The type of a name. -/
def ofName? (s : List UInt8) : Option StandardType :=
  if Text.Octet.spells "any" s then some .any
  else if Text.Octet.spells "blob" s then some .blob
  else if Text.Octet.spells "int" s then some .int
  else if Text.Octet.spells "integer" s then some .integer
  else if Text.Octet.spells "real" s then some .real
  else if Text.Octet.spells "text" s then some .text
  else none

/-- The affinity that a standard type gives. -/
def affinity : StandardType → Affinity
  | .any => .numeric
  | .blob => .blob
  | .int | .integer => .integer
  | .real => .real
  | .text => .text

end StandardType

/-- The type of a column. -/
structure ColumnType where
  standard : Option StandardType
  affinity : Affinity
  /-- How wide the values are taken to be, in units of an integer. -/
  width : Nat
  /-- The text of a type that is not a standard one. -/
  text : List UInt8

namespace ColumnType

/-- The type of a column without one. -/
def none : ColumnType := ⟨.none, .blob, 1, []⟩

/-- The marks that can open a quoted name. -/
def isQuotationMark (b : UInt8) : Bool :=
  b = 0x22 || b = 0x27 || b = 0x5B || b = 0x60

/-- A text without the quotation marks around it, if it has them and none within. -/
def unquoteWhole (s : List UInt8) : List UInt8 :=
  match s with
  | b :: c :: rest =>
    let inner := (c :: rest).dropLast
    if isQuotationMark b && !inner.any isQuotationMark then inner else s
  | s => s

/-- The content of the quotation marks with which a text begins; a text without them as it is. -/
def unquoteFirst (s : List UInt8) : List UInt8 :=
  match s with
  | b :: rest =>
    if isQuotationMark b then
      match Lexeme.quotedContent (if b = 0x5B then 0x5D else b) rest with
      | some (content, _) => content
      | .none => s
    else s
  | [] => []

/-- A text without a word at its end and the blanks in front of that word, if it ends in the word. -/
def withoutLast (word : String) (s : List UInt8) : Option (List UInt8) :=
  let kept := s.length - word.length
  if Text.Octet.spells word (s.drop kept) then
    some ((s.take kept).reverse.dropWhile Text.Octet.isBlank).reverse
  else .none

/-- The type without the words `generated always` at its end, which belong to what follows. -/
def withoutGenerated (s : List UInt8) : List UInt8 :=
  if s.length < 16 then s
  else match withoutLast "always" s with
    | .none => s
    | some s => (withoutLast "generated" s).getD s

/-- The first number in a text, if it has one of 31 bits. -/
def sizeIn (s : List UInt8) : Nat :=
  let n := Text.Octet.value ((s.dropWhile fun b => !Text.Octet.isDigit b).takeWhile Text.Octet.isDigit)
  if n < 0x80000000 then n else 0

/-- How wide the values of a type are taken to be. -/
def widthOf (a : Affinity) (size : Option (List UInt8)) : Nat :=
  let n := match a, size with
    | .blob, some s | .text, some s => sizeIn s
    | .blob, .none | .text, .none => 16
    | _, _ => 0
  min 255 (n / 4 + 1)

/-- The type that a text declares. -/
def ofText (declared : List UInt8) : ColumnType :=
  let s := withoutGenerated declared
  let s := if 3 ≤ s.length then unquoteWhole s else s
  match if 3 ≤ s.length then StandardType.ofName? s else .none with
  | some t => ⟨some t, t.affinity, if t.affinity = .blob || t.affinity = .text then 5 else 1, []⟩
  | .none =>
    if s.isEmpty then none
    else
      let s := unquoteFirst s
      let (a, size) := Affinity.ofText s
      ⟨.none, a, widthOf a size, s⟩

end ColumnType
end FirstRow.Sql
