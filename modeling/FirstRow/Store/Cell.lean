import FirstRow.Store.Chain
import FirstRow.Store.Varint

/-!
# Tree pages and their cells

A page of a b-tree has a kind, child pages if it is interior, and cells. A cell holds the head of a payload; what the
page has no room for goes on in a chain of overflow pages, from which `Cell.read` takes any part of the payload.
-/
namespace FirstRow.Store

/-- What the entries of a tree are ordered by: row numbers, or the entries themselves. -/
inductive TreeKind where
  | table
  | index
deriving DecidableEq

/-- A page of a tree. -/
structure TreePage where
  page : Page
  kind : TreeKind
  isLeaf : Bool
  cellCount : Nat

namespace TreePage

/-- Where the tree's own header begins: behind the header of the file on the first page. -/
def headerStart (page : Page) : Nat :=
  if page.number = 1 then 100 else 0

/-- The kind that an octet stands for, and whether the page is a leaf. -/
def kindOf (b : UInt8) : Option (TreeKind × Bool) :=
  if b = 0x0D then some (.table, true)
  else if b = 0x05 then some (.table, false)
  else if b = 0x0A then some (.index, true)
  else if b = 0x02 then some (.index, false)
  else none

/-- The greatest number of cells for which a page has room. -/
def maxCells (img : Image) : Nat :=
  (img.pageSize - 8) / 6

/-- Read a page as one of a tree. -/
def ofPage (img : Image) (page : Page) : Except Error TreePage :=
  let h := headerStart page
  match kindOf (octetAt page.octets h) with
  | none => .error .malformed
  | some (kind, isLeaf) =>
    let cellCount := numberAt page.octets (h + 3) 2
    if maxCells img < cellCount then .error .malformed
    else .ok ⟨page, kind, isLeaf, cellCount⟩

/-- The tree page with a number. -/
def load (img : Image) (n : Nat) : Except Error TreePage :=
  img.page n >>= ofPage img

/-- Where the pointers to the cells begin. -/
def pointerStart (t : TreePage) : Nat :=
  headerStart t.page + if t.isLeaf then 8 else 12

/-- Where a cell begins. A pointer beyond the page is taken modulo its size. -/
def cellStart (img : Image) (t : TreePage) (i : Nat) : Nat :=
  numberAt t.page.octets (t.pointerStart + 2 * i) 2 % img.pageSize

/-- The page of the child in front of a cell. -/
def childBefore (img : Image) (t : TreePage) (i : Nat) : Nat :=
  numberAt t.page.octets (t.cellStart img i) 4

/-- The page of the last child. -/
def lastChild (t : TreePage) : Nat :=
  numberAt t.page.octets (headerStart t.page + 8) 4

/-- The children of an interior page, in order. -/
def children (img : Image) (t : TreePage) : List Nat :=
  (List.range t.cellCount).map (t.childBefore img) ++ [t.lastChild]

end TreePage

/-- How many octets of a payload stay on its page: all of them up to `most`; of a longer one as many as leave no
overflow page partly empty, if that is no more than `most`, and else `least`. -/
def keptOnPage (usable least most size : Nat) : Nat :=
  if size ≤ most then size
  else
    let kept := least + (size - least) % (usable - 4)
    if kept ≤ most then kept else least

/-- The least number of octets that a page keeps of a payload that goes on elsewhere. -/
def leastKept (usable : Nat) : Nat :=
  (usable - 12) * 32 / 255 - 23

/-- The greatest number of octets of a payload on a leaf of a tree. -/
def mostKept (usable : Nat) : TreeKind → Nat
  | .table => usable - 35
  | .index => (usable - 12) * 64 / 255 - 23

/-- An entry on a leaf. -/
structure Cell where
  page : Page
  /-- The number of the row; entries of an index have none. -/
  rowid : Int
  /-- The length of the payload. -/
  size : Nat
  /-- How much of the payload stands on the page. -/
  kept : Nat
  /-- Where on the page the payload begins. -/
  start : Nat

namespace Cell

/-- The entry in a cell of a leaf. -/
def ofLeaf (img : Image) (t : TreePage) (i : Nat) : Cell :=
  let at_ := t.cellStart img i
  let (size, n) := Varint.decodeLength (octetsAt t.page.octets at_ 9)
  let kept := keptOnPage img.usable (leastKept img.usable) (mostKept img.usable t.kind) size
  match t.kind with
  | .table =>
    let (rowid, m) := Varint.decode (octetsAt t.page.octets (at_ + n) 9)
    ⟨t.page, Varint.signed rowid, size, kept, at_ + n + m⟩
  | .index => ⟨t.page, 0, size, kept, at_ + n⟩

/-- How much of the payload can be read from the page itself. -/
def available (img : Image) (c : Cell) : Nat :=
  min c.kept (img.pageSize - c.start)

/-- A part of the payload. What stands on the page must end before its reserved octets. -/
def read (img : Image) (c : Cell) (offset length : Nat) : ChainReader (List UInt8) := do
  if img.usable < c.start + c.kept then throw .malformed
  let onPage := min length (c.kept - offset)
  let head := octetsAt c.page.octets (c.start + offset) onPage
  if onPage = length then pure head
  else
    let first := numberAt c.page.octets (c.start + c.kept) 4
    return head ++ (← Chain.read img first (offset - c.kept) (length - onPage))

end Cell
end FirstRow.Store
