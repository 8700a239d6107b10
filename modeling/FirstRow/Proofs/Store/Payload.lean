import FirstRow.Proofs.Store.Spread
import FirstRow.Store.Datum

/-!
# Entries

`Entry` is an entry of a tree as it is meant, apart from where it stands: its row number, its record, and how much of
the payload its page keeps. `Stores` and `LeafCell` say that it stands somewhere in a file: what the page keeps, and a
chain for the rest.
-/
namespace FirstRow.Store

/-! ## Entries -/

/-- A field of a record: the octets of its value, their serial type, and in how many octets that type is written. -/
structure Content where
  serialType : Nat
  width : Nat
  octets : List UInt8

/-- An entry of a tree. The entries of an index have the row number zero. -/
structure Entry where
  rowid : Int
  contents : List Content
  /-- In how many octets the length of the record's header is written. -/
  width : Nat
  /-- How much of the payload stands on the page of the entry. -/
  kept : Nat

namespace Entry

/-- The length of a record's header, its own length included. -/
def headerSize (x : Entry) : Nat :=
  x.width + (x.contents.map Content.width).sum

/-- The serial types of fields as they are written. -/
def types (cs : List Content) : List UInt8 :=
  cs.flatMap fun c => Varint.encodeIn c.width c.serialType

/-- The values of fields as they are written. -/
def values (cs : List Content) : List UInt8 :=
  cs.flatMap Content.octets

/-- The record of an entry: a header with the serial type of every field, and behind it the values. -/
def payload (x : Entry) : List UInt8 :=
  Varint.encodeIn x.width x.headerSize ++ types x.contents ++ values x.contents

/-- The record of an entry is in order, and it and its values are no longer than they can be. -/
structure IsRecord (x : Entry) : Prop where
  contents_ne : x.contents ≠ []
  header : Varint.Fits x.width x.headerSize
  headerSize_le : x.headerSize ≤ 98307
  fits : ∀ c ∈ x.contents, Varint.Fits c.width c.serialType
  size : ∀ c ∈ x.contents, c.octets.length = serialSize c.serialType
  size_le : ∀ c ∈ x.contents, c.octets.length ≤ 1000000000

instance (x : Entry) : Decidable x.IsRecord :=
  decidable_of_iff (x.contents ≠ [] ∧ Varint.Fits x.width x.headerSize ∧ x.headerSize ≤ 98307 ∧
      (∀ c ∈ x.contents, Varint.Fits c.width c.serialType) ∧
      (∀ c ∈ x.contents, c.octets.length = serialSize c.serialType) ∧ ∀ c ∈ x.contents, c.octets.length ≤ 1000000000)
    ⟨fun ⟨h₁, h₂, h₃, h₄, h₅, h₆⟩ => ⟨h₁, h₂, h₃, h₄, h₅, h₆⟩,
      fun h => ⟨h.contents_ne, h.header, h.headerSize_le, h.fits, h.size, h.size_le⟩⟩

end Entry

/-! ## Where entries stand -/

/-- The payload of an entry stands on a page from an index on, and goes on in a chain of pages. -/
structure Stores (img : Image) (kind : TreeKind) (n i : Nat) (x : Entry) (pages : List Nat) : Prop where
  isPage : img.IsPage n
  limit : x.payload.length < 0x80000000
  keeps : Keeps img.usable ((img.usable - 12) * 32 / 255 - 23) (leafLimit img.usable kind) x.payload.length x.kept
  here : img.Holds n i (x.payload.take x.kept)
  overflow : x.kept = x.payload.length ∧ pages = [] ∨
    i + x.kept + 4 ≤ img.usable ∧ pages.head? = some (img.numberIn n (i + x.kept) 4) ∧ (n :: pages).Nodup ∧
      Chained img pages (x.payload.drop x.kept)

/-- A cell on a leaf holds an entry. A length takes up to eight octets. -/
inductive LeafCell (img : Image) (n i : Nat) : TreeKind → Entry → Prop where
  | table {x : Entry} {a b : Nat} {pages : List Nat} : Varint.Fits a x.payload.length → a ≤ 8 →
      -0x8000000000000000 ≤ x.rowid → x.rowid < 0x8000000000000000 → Varint.Fits b (Varint.unsigned x.rowid) →
      img.Holds n i (Varint.encodeIn a x.payload.length ++ Varint.encodeIn b (Varint.unsigned x.rowid)) →
      Stores img .table n (i + a + b) x pages → LeafCell img n i .table x
  | index {x : Entry} {a : Nat} {pages : List Nat} : x.rowid = 0 → Varint.Fits a x.payload.length → a ≤ 8 →
      img.Holds n i (Varint.encodeIn a x.payload.length) → Stores img .index n (i + a) x pages → LeafCell img n i .index x

/-- An entry as a cell of a page, where its payload begins at an index. -/
def Entry.cell (img : Image) (x : Entry) (n i : Nat) : Cell :=
  ⟨img.pageOf n, x.rowid, x.payload.length, x.kept, i⟩

/-- A cell is that of an entry which stands somewhere in a file. -/
def Entry.IsAt (img : Image) (kind : TreeKind) (x : Entry) (c : Cell) : Prop :=
  x.IsRecord ∧ ∃ n i pages, c = x.cell img n i ∧ Stores img kind n i x pages

variable {img : Image} {kind : TreeKind} {n i : Nat} {x : Entry} {pages : List Nat}

/-- Where an entry stands its payload does. -/
theorem Stores.spread (h : Stores img kind n i x pages) : Spread img kind n i x.payload x.kept pages :=
  ⟨h.isPage, h.limit, h.keeps, h.here, h.overflow⟩

theorem Spread.stores (h : Spread img kind n i x.payload x.kept pages) : Stores img kind n i x pages :=
  ⟨h.isPage, h.limit, h.keeps, h.here, h.overflow⟩

namespace LeafCell

/-- The cell of an entry holds its payload. -/
theorem payloadCell (h : LeafCell img n i kind x) : ∃ start, PayloadCell img n i kind x.rowid x.payload x.kept start := by
  cases h with
  | table ha hsmall hlow hhigh hb hholds hstores =>
    exact ⟨_, .table ha (.inl hsmall) hlow hhigh hb hholds hstores.spread⟩
  | index hrowid ha hsmall hholds hstores =>
    rw [hrowid]
    exact ⟨_, .index ha (.inl hsmall) hholds hstores.spread⟩

/-- A cell ends in front of the reserved octets of its page. -/
theorem start_lt (h : LeafCell img n i kind x) : i < img.usable := by
  obtain ⟨start, hcell⟩ := h.payloadCell
  exact hcell.start_lt

/-- The entry that a leaf holds is read from it. -/
theorem isAt {t : TreePage} {i : Nat} (hp : img.Proper) (hpage : t.page = img.pageOf n) (hkind : t.kind = kind)
    (hrecord : x.IsRecord) (h : LeafCell img n (t.cellStart img i) kind x) : x.IsAt img kind (.ofLeaf img t i) := by
  obtain ⟨start, hcell⟩ := h.payloadCell
  obtain ⟨pages, hspread⟩ := hcell.spread
  exact ⟨hrecord, n, start, pages, hcell.ofLeaf_eq hp hpage hkind, hspread.stores⟩

end LeafCell
end FirstRow.Store
