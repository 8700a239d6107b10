import FirstRow.Store.Datum
import FirstRow.Store.Error

/-!
# Database files

`Image.ofFile` checks the header of a file and gives the measures by which its pages are found. A file without
content is a database without pages. Where a page reaches beyond the end of the file it goes on with zeros.
-/
namespace FirstRow.Store

/-- A database file and the measures of its header. -/
structure Image where
  content : ByteArray
  pageSize : Nat
  /-- The octets of a page that hold data; the rest of the page is reserved. -/
  usable : Nat
  pageCount : Nat
  encoding : Encoding
  schemaFormat : Nat
  /-- Some pages hold a map that says of every other page what it is for. -/
  isMapped : Bool
  /-- The file could be changed. -/
  isWritable : Bool

/-- The octet at an index, zero beyond the end. -/
def octetAt (bs : ByteArray) (i : Nat) : UInt8 :=
  if h : i < bs.size then bs[i] else 0

/-- The octets of an array from `start` on, `length` of them, zeros beyond the end. -/
def octetsAt (bs : ByteArray) (start length : Nat) : List UInt8 :=
  (List.range length).map fun i => octetAt bs (start + i)

/-- The number in `length` octets from `start` on. -/
def numberAt (bs : ByteArray) (start length : Nat) : Nat :=
  bigEndian (octetsAt bs start length)

namespace Header

/-- The sixteen octets with which a database file begins. -/
def magic : List UInt8 := Text.Utf8.ofString "SQLite format 3\x00"

/-- The octets that fix how much of a payload stays on its page. -/
def fractions : List UInt8 := [64, 32, 32]

/-- The page size that two octets write; they write 65536 as one. -/
def pageSize (bs : ByteArray) : Nat :=
  (octetAt bs 16).toNat * 0x100 + (octetAt bs 17).toNat * 0x10000

/-- The sizes a page can have: the powers of two from 512 to 65536. -/
def isPageSize (n : Nat) : Bool :=
  n ∈ [512, 1024, 2048, 4096, 8192, 16384, 32768, 65536]

/-- The number of pages in a file, a last partial one included. -/
def filePages (bs : ByteArray) : Nat :=
  (bs.size + pageSize bs - 1) / pageSize bs

/-- The number of pages that the header states. It counts only if the file was last changed by a writer that keeps
it up to date. -/
def statedPages? (bs : ByteArray) : Option Nat :=
  let n := numberAt bs 28 4
  if n ≠ 0 ∧ octetsAt bs 24 4 = octetsAt bs 92 4 then some n else none

/-- Whether the file is to be read through a write-ahead log. -/
def asksForLog (bs : ByteArray) : Bool :=
  octetAt bs 19 = 2

/-- The newest schema format that can be read. -/
def newestSchemaFormat : Nat := 4

end Header

namespace Image

/-- The database without pages. -/
def empty : Image where
  content := .empty
  pageSize := 4096
  usable := 4096
  pageCount := 0
  encoding := .utf8
  schemaFormat := 1
  isMapped := false
  isWritable := false

/-- The image of a file, if its header is in order. `logAllowed` says whether a write-ahead log could be opened
beside it, and `mayWrite` whether the file was opened for writing. A single octet is no content yet. -/
def ofFile (bs : ByteArray) (logAllowed mayWrite : Bool) : Except Error Image :=
  if bs.size ≤ 1 then .ok empty
  else if octetsAt bs 0 16 ≠ Header.magic || 2 < octetAt bs 19 then .error .notADatabase
  else if Header.asksForLog bs && !logAllowed then .error .cannotOpen
  else if octetsAt bs 21 3 ≠ Header.fractions || !Header.isPageSize (Header.pageSize bs) then
    .error .notADatabase
  else
    let pageSize := Header.pageSize bs
    let usable := pageSize - (octetAt bs 20).toNat
    let pageCount := (Header.statedPages? bs).getD (Header.filePages bs)
    if Header.filePages bs < pageCount then .error .malformed
    else if usable < 480 then .error .notADatabase
    else .ok
      { content := bs
        pageSize
        usable
        pageCount
        encoding := .ofCode (numberAt bs 56 4)
        schemaFormat := max 1 (numberAt bs 44 4 % 0x100)
        isMapped := numberAt bs 52 4 ≠ 0
        isWritable := mayWrite && octetAt bs 18 ≤ 2 }

/-- The number of octets in all pages. -/
def totalSize (img : Image) : Nat :=
  img.pageSize * img.pageCount

/-- The page whose octets serve for locks. It holds nothing. -/
def lockPage (img : Image) : Nat :=
  0x40000000 / img.pageSize + 1

end Image

/-- A page: its number, counted from one, and its octets. -/
structure Page where
  number : Nat
  octets : ByteArray

/-- The page with a number. There is no page zero and none beyond the last, and the page for locks cannot be read. -/
def Image.page (img : Image) (n : Nat) : Except Error Page :=
  if n = 0 || img.pageCount < n || n = img.lockPage then .error .malformed
  else .ok ⟨n, img.content.extract ((n - 1) * img.pageSize) (n * img.pageSize)⟩

end FirstRow.Store
