import FirstRow.Store.Cell

/-!
# Records

The payload of an entry is a record: a header with the serial type of every field, and behind it the values. Only as
many fields are looked at as are asked for, and a record with fewer fields than that is no error.
-/
namespace FirstRow.Store

/-- Where a field of a record stands. -/
structure Field where
  serialType : Nat
  offset : Nat
deriving DecidableEq

namespace Record

/-- The longest header that a record can have. -/
def maxHeader : Nat := 98307

/-- The greatest length of a text or a blob. -/
def maxLength : Nat := 1000000000

/-- What is known of the fields of a record: the first ones, and whether the header makes no sense behind them. -/
structure Layout where
  fields : Array Field
  broken : Bool

/-- Where a field is. A record can have fewer fields than that. -/
def Layout.field? (l : Layout) (i : Nat) : Except Error (Option Field) :=
  match l.fields[i]? with
  | some f => .ok (some f)
  | none => if l.broken then .error .malformed else .ok none

/-- Read on in a header of `size` octets, up to `count` serial types. The next one stands at `position`, its value at
`offset`, and `total` is the length of the record. The header must end with a serial type, the values must lie inside
the record, and where the header is used up they must fill it. -/
def layoutFrom (header : List UInt8) (size total : Nat) : Nat → Nat → Nat → Layout → Layout
  | 0, _, _, l => l
  | count + 1, position, offset, l =>
    let (t, n) := Varint.decode32 (header.drop position)
    let position := position + n
    let next := offset + serialSize t
    if total < next || size < position || (size = position && next ≠ total) then { l with broken := true }
    else
      let l := { l with fields := l.fields.push ⟨t, offset⟩ }
      if position < size then layoutFrom header size total count position next l else l

/-- The first `count` fields that a header of `size` octets describes, where the first serial type stands at
`position` and `total` is the length of the record. A header of no octets describes no fields. -/
def layoutOf (header : List UInt8) (size position total count : Nat) : Layout :=
  if size = 0 then ⟨#[], false⟩ else layoutFrom header size total count position size ⟨#[], false⟩

/-- The first `count` fields of the record in a cell, which must begin on its page. A header that the page does not
hold in full is read through the chain. -/
def layout (img : Image) (c : Cell) (count : Nat) : ChainReader Layout := do
  if count = 0 then return ⟨#[], false⟩
  if img.pageSize ≤ c.start then throw .malformed
  let onPage := octetsAt c.page.octets c.start (img.pageSize - c.start)
  let (size, n) := Varint.decode32 onPage
  if size ≤ c.available img then return layoutOf onPage size n c.size count
  if maxHeader < size || c.size < size then throw .malformed
  if size ≤ n then return ⟨#[], false⟩
  if img.totalSize < size then throw .malformed
  let header ← c.read img 0 size
  return layoutOf header size n c.size count

/-- The value of a field. A value that the page does not hold in full is read through the chain. Of long texts read
in this way from a table a byte-order mark is dropped. -/
def value (img : Image) (kind : TreeKind) (c : Cell) (f : Field) : ChainReader Datum := do
  let size := serialSize f.serialType
  if f.offset + size ≤ c.available img then
    return .ofSerial img.encoding.toUtf8 f.serialType (octetsAt c.page.octets (c.start + f.offset) size)
  if size = 0 then return .ofSerial img.encoding.toUtf8 f.serialType []
  if maxLength < size then throw .tooBig
  if 4000 < size && kind = .table then
    return .ofSerial img.encoding.toUtf8WithMark f.serialType (← c.read img f.offset size)
  if img.totalSize < f.offset + size then throw .malformed
  return .ofSerial img.encoding.toUtf8 f.serialType (← c.read img f.offset size)

end Record
end FirstRow.Store
