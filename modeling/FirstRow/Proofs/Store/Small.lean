import FirstRow.Proofs.Store.Header
import FirstRow.Proofs.Store.Tree

/-!
# Small files

A layout of small databases: every tree is a single leaf on a page of 512 octets, with its cells in the last octets of
the page, and every cell keeps its entry in full. Such a file has a header that is in order, and its leaves hold their
entries.
-/
namespace FirstRow.Store

namespace Small

/-- A text of an entry. -/
def text (s : String) : Content :=
  ⟨13 + 2 * (Text.Utf8.ofString s).length, if s.length < 58 then 1 else 2, Text.Utf8.ofString s⟩

/-- A text of an entry, in an encoding. -/
def textIn (e : Encoding) (s : String) : Content :=
  let bs := e.ofUtf8 (Text.Utf8.ofString s)
  ⟨13 + 2 * bs.length, if bs.length < 58 then 1 else 2, bs⟩

/-- An entry that its page keeps in full. -/
def entry (rowid : Int) (contents : List Content) : Entry :=
  let x : Entry := ⟨rowid, contents, 1, 0⟩
  { x with kept := x.payload.length }

/-- An entry of a schema. -/
def object (rowid : Int) (type name : String) (root : UInt8) (sql : String) : Entry :=
  entry rowid [text type, text name, text "test", ⟨1, 1, [root]⟩, text sql]

/-- The cell of an entry on a leaf. -/
def cell (kind : TreeKind) (x : Entry) : List UInt8 :=
  Varint.encodeIn 1 x.payload.length ++
    (match kind with
      | .table => Varint.encodeIn 1 (Varint.unsigned x.rowid)
      | .index => []) ++ x.payload

/-- Where cells begin that follow each other from an index on. -/
def starts : Nat → List (List UInt8) → List Nat
  | _, [] => []
  | i, c :: cs => i :: starts (i + c.length) cs

/-- A leaf with some entries in its last octets, and what stands in front of it. -/
def leaf (front : List UInt8) (kind : TreeKind) (xs : List Entry) : List UInt8 :=
  let cells := xs.map (cell kind)
  let start := 512 - cells.flatten.length
  let two (n : Nat) : List UInt8 := [(n / 0x100).toUInt8, (n % 0x100).toUInt8]
  let head := front ++ [kind.code true, 0, 0] ++ two xs.length ++ two start ++ [0] ++ (starts start cells).flatMap two
  head ++ List.replicate (start - head.length) 0 ++ cells.flatten

/-- A leaf with a single cell in its last octets. -/
def single (kind : TreeKind) (cell : List UInt8) : List UInt8 :=
  let start := 512 - cell.length
  let two : List UInt8 := [(start / 0x100).toUInt8, (start % 0x100).toUInt8]
  [kind.code true, 0, 0, 0, 1] ++ two ++ [0] ++ two ++ List.replicate (start - 10) 0 ++ cell

/-- The cell of an entry of a table that its page keeps in part. The rest is in a chain from the third page on. -/
def spreadCell (x : Entry) : List UInt8 :=
  Varint.encodeIn 2 x.payload.length ++ Varint.encodeIn 1 (Varint.unsigned x.rowid) ++ x.payload.take x.kept ++
    [0, 0, 0, 3]

/-- The `k`th of so many pages in the chain of an entry. -/
def chainPage (x : Entry) (pages k : Nat) : List UInt8 :=
  [0, 0, 0, if k + 1 = pages then 0 else k.toUInt8 + 4] ++ (x.payload.drop (x.kept + 508 * k)).take 508

/-- The header of a file of so many pages. -/
def header (pages : UInt8) : List UInt8 :=
  fileMagic ++ [2, 0, 1, 1, 0, 64, 32, 32, 0, 0, 0, 1, 0, 0, 0, pages] ++ List.replicate 15 0 ++ [4] ++
    List.replicate 11 0 ++ [1] ++ List.replicate 35 0 ++ [1, 0, 0, 0, 0]

/-- The header of a file of so many pages with its texts in an encoding. -/
def headerIn (e : Encoding) (pages : UInt8) : List UInt8 :=
  (header pages).set 59 e.code.toUInt8

/-- The image of a file of so many pages. -/
def image (octets : List UInt8) (pages : Nat) : Image :=
  { Image.empty with
    content := ⟨octets.toArray⟩, pageSize := 512, usable := 512, pageCount := pages, schemaFormat := 4 }

/-- The image of a file of so many pages with its texts in an encoding. -/
def imageIn (e : Encoding) (octets : List UInt8) (pages : Nat) : Image :=
  { image octets pages with encoding := e }

theorem proper {e : Encoding} {octets : List UInt8} {pages : Nat} : (imageIn e octets pages).Proper where
  usable_ge := show 480 ≤ 512 by decide
  usable_le := Nat.le_refl 512
  pageSize_ge := Nat.le_refl 512
  pageSize_le := show 512 ≤ 65536 by decide

/-- A part of a page. -/
def part (octets : List UInt8) (n i length : Nat) : List UInt8 :=
  (octets.drop ((n - 1) * 512 + i)).take length

/-- A cell that its page keeps in full is that of its entry. -/
theorem leafCell {img : Image} {kind : TreeKind} {n i : Nat} {x : Entry} (hpage : img.IsPage n)
    (hlength : x.payload.length < 128) (hlimit : x.payload.length ≤ leafLimit img.usable kind)
    (hkept : x.kept = x.payload.length) (hlow : 0 ≤ x.rowid) (hhigh : x.rowid < 128)
    (hrowid : kind = .index → x.rowid = 0) (h : img.Holds n i (cell kind x)) : LeafCell img n i kind x := by
  have hsize : Varint.Fits 1 x.payload.length := ⟨by omega, by omega, by omega, fun _ => by omega⟩
  have hkeeps : Keeps img.usable ((img.usable - 12) * 32 / 255 - 23) (leafLimit img.usable kind) x.payload.length x.kept := by
    rw [hkept]
    exact .all hlimit
  have htake : x.payload.take x.kept = x.payload := by rw [hkept, List.take_length]
  have hplace := h.right
  cases kind with
  | table =>
    have hnumber : Varint.Fits 1 (Varint.unsigned x.rowid) := by
      unfold Varint.unsigned
      exact ⟨by omega, by omega, by split <;> omega, fun _ => by split <;> omega⟩
    rw [List.length_append, Varint.length_encodeIn hsize.pos, Varint.length_encodeIn hnumber.pos] at hplace
    refine .table hsize (by omega) (by omega) (by omega) hnumber h.left ⟨hpage, by omega, hkeeps, ?_, .inl ⟨hkept, rfl⟩⟩
    rw [htake]
    exact hplace
  | index =>
    rw [List.append_nil, Varint.length_encodeIn hsize.pos] at hplace
    have hfront := h.left
    rw [List.append_nil] at hfront
    refine .index (hrowid rfl) hsize (by omega) hfront ⟨hpage, by omega, hkeeps, ?_, .inl ⟨hkept, rfl⟩⟩
    rw [htake]
    exact hplace

/-- A cell that its page keeps in part is that of its entry. -/
theorem leafCell_spread {img : Image} {n i : Nat} {x : Entry} {pages : List Nat} (hpage : img.IsPage n)
    (hsize : Varint.Fits 2 x.payload.length) (hrowid : Varint.Fits 1 (Varint.unsigned x.rowid)) (hlow : 0 ≤ x.rowid)
    (hhigh : x.rowid < 128)
    (hkeeps : Keeps img.usable ((img.usable - 12) * 32 / 255 - 23) (leafLimit img.usable .table) x.payload.length x.kept)
    (hkept : x.kept ≤ x.payload.length) (hnodup : (n :: 3 :: pages).Nodup)
    (hchain : Chained img (3 :: pages) (x.payload.drop x.kept)) (h : img.Holds n i (spreadCell x)) :
    LeafCell img n i .table x := by
  have hlimit := hsize.room (by decide)
  have htake : (x.payload.take x.kept).length = x.kept := by rw [List.length_take, Nat.min_eq_left hkept]
  have hplace := h.left.right
  have hfirst := h.right
  rw [List.length_append, Varint.length_encodeIn hsize.pos, Varint.length_encodeIn hrowid.pos] at hplace
  simp only [List.length_append, Varint.length_encodeIn hsize.pos, Varint.length_encodeIn hrowid.pos, htake] at hfirst
  rw [show i + (2 + 1 + x.kept) = i + 2 + 1 + x.kept by omega] at hfirst
  refine .table hsize (by decide) (by omega) (by omega) hrowid h.left.left
    ⟨hpage, by omega, hkeeps, hplace, .inr ⟨hfirst.within, ?_, hnodup, hchain⟩⟩
  exact congrArg some (congrArg bigEndian hfirst.octets).symm

theorem octetsAt_toArray (octets : List UInt8) {i n : Nat} (h : i + n ≤ octets.length) :
    octetsAt ⟨octets.toArray⟩ i n = (octets.drop i).take n := by
  refine List.ext_getElem (by simp; omega) fun k hk _ => ?_
  have hk : k < n := by simpa using hk
  have hlt : i + k < (⟨octets.toArray⟩ : ByteArray).size := by
    show i + k < octets.toArray.size
    simp
    omega
  simp only [octetsAt, List.getElem_map, List.getElem_range, octetAt_of_lt hlt, List.getElem_take, List.getElem_drop]
  rfl

theorem octetsAt_image {e : Encoding} {octets : List UInt8} {pages n i k : Nat} (hlength : octets.length = pages * 512)
    (hpos : 0 < n) (hle : n ≤ pages) (h : i + k ≤ 512) :
    octetsAt (imageIn e octets pages).content ((imageIn e octets pages).place n i) k = part octets n i k := by
  have hplace : (n - 1) * 512 + i + k ≤ octets.length := by
    obtain ⟨m, rfl⟩ : ∃ m, n = m + 1 := ⟨n - 1, by omega⟩
    have hfile : (m + 1) * 512 ≤ pages * 512 := Nat.mul_le_mul_right 512 hle
    rw [Nat.add_sub_cancel, hlength]
    clear hlength
    omega
  exact octetsAt_toArray octets hplace

/-- A page holds what stands there in the file. -/
theorem holds {e : Encoding} {octets : List UInt8} {pages n i : Nat} {bs : List UInt8}
    (hlength : octets.length = pages * 512) (hpage : (imageIn e octets pages).IsPage n)
    (h : i + bs.length ≤ 512 ∧ part octets n i bs.length = bs) : (imageIn e octets pages).Holds n i bs where
  octets := (octetsAt_image hlength hpage.pos hpage.le h.1).trans h.2
  within := h.1

/-- A page of a file is a leaf with certain cells. -/
def HasCells (octets : List UInt8) (n : Nat) (kind : TreeKind) (cells : List (List UInt8)) : Prop :=
  part octets n (Image.treeStart n) 1 = [kind.code true] ∧
    bigEndian (part octets n (Image.treeStart n + 3) 2) = cells.length ∧ 8 + 6 * cells.length ≤ 512 ∧
    ∀ p ∈ cells.zipIdx,
      let start := bigEndian (part octets n (Image.treeStart n + 8 + 2 * p.2) 2)
      start + p.1.length ≤ 512 ∧ part octets n start p.1.length = p.1
deriving Decidable

/-- A page of a file is a leaf that keeps certain entries in full, each of them in few octets. -/
def HasEntries (octets : List UInt8) (n : Nat) (kind : TreeKind) (xs : List Entry) : Prop :=
  HasCells octets n kind (xs.map (cell kind)) ∧
    (∀ x ∈ xs, x.IsRecord ∧ x.payload.length < 128 ∧ x.payload.length ≤ leafLimit 512 kind ∧
      x.kept = x.payload.length ∧ 0 ≤ x.rowid ∧ x.rowid < 128 ∧ (kind = .index → x.rowid = 0)) ∧
    (kind = .table → xs.Pairwise fun x y => x.rowid < y.rowid)
deriving Decidable

section

variable {e : Encoding} {octets : List UInt8} {pages n : Nat} {kind : TreeKind}

/-- A leaf holds its cells. -/
theorem HasCells.holds {cells : List (List UInt8)} (h : HasCells octets n kind cells)
    (hlength : octets.length = pages * 512) (hpage : (imageIn e octets pages).IsPage n) :
    Node (imageIn e octets pages) kind n true cells.length ∧ ∀ i (_ : i < cells.length),
      (imageIn e octets pages).Holds n ((imageIn e octets pages).cellAt n true i) cells[i] := by
  obtain ⟨hkind, hcount, hroom, hcells⟩ := h
  have hpart {i k : Nat} (h : i + k ≤ 512) :
      octetsAt (imageIn e octets pages).content ((imageIn e octets pages).place n i) k = part octets n i k :=
    octetsAt_image hlength hpage.pos hpage.le h
  have hstart := Node.treeStart_le n
  have hheader : Image.treeHeader true = 8 := rfl
  have hcode := hpart (show Image.treeStart n + 1 ≤ 512 by omega)
  rw [hkind, octetsAt_succ, octetsAt_zero] at hcode
  refine ⟨⟨hpage, List.head_eq_of_cons_eq hcode, ?_, hroom⟩, fun i hi => ?_⟩
  · rw [Image.numberIn, numberAt, hpart (by omega)]
    exact hcount
  have hat : (imageIn e octets pages).cellAt n true i = bigEndian (part octets n (Image.treeStart n + 8 + 2 * i) 2) :=
    congrArg bigEndian (hpart (by omega))
  rw [hat]
  exact Small.holds hlength hpage (hcells (cells[i], i) (List.mem_zipIdx_iff_getElem?.mpr (List.getElem?_eq_getElem hi)))

/-- A leaf holds its only cell. -/
theorem HasCells.holds_single {cell : List UInt8} (h : HasCells octets n kind [cell])
    (hlength : octets.length = pages * 512) (hpage : (imageIn e octets pages).IsPage n) :
    Node (imageIn e octets pages) kind n true 1 ∧
      (imageIn e octets pages).Holds n ((imageIn e octets pages).cellAt n true 0) cell := by
  obtain ⟨hnode, hcells⟩ := h.holds (e := e) hlength hpage
  exact ⟨hnode, hcells 0 Nat.one_pos⟩

/-- Every page of a file of few pages is one of its pages. -/
theorem isPage (hpos : 0 < n) (hle : n ≤ pages) (hfew : pages < 0x100) : (imageIn e octets pages).IsPage n where
  pos := hpos
  le := hle
  ne_lockPage := by
    have hlock : (imageIn e octets pages).lockPage = 0x40000000 / 512 + 1 := rfl
    omega

/-- A file has the rest of an entry in so many pages from the third one on. -/
def HasChain (octets : List UInt8) (x : Entry) (count : Nat) : Prop :=
  let rest := x.payload.drop x.kept
  (count - 1) * 508 < rest.length ∧ rest.length ≤ count * 508 ∧
    (∀ k ∈ List.range count, 4 + ((rest.drop (k * 508)).take 508).length ≤ 512 ∧
      part octets (3 + k) 4 ((rest.drop (k * 508)).take 508).length = (rest.drop (k * 508)).take 508) ∧
    ∀ k ∈ List.range (count - 1), bigEndian (part octets (3 + k) 0 4) = 4 + k
deriving Decidable

/-- The pages with the rest of an entry are a chain. -/
theorem HasChain.chained {x : Entry} {count : Nat} (h : HasChain octets x count)
    (hlength : octets.length = pages * 512) (hle : 2 + count ≤ pages) (hfew : pages < 0x100) :
    Chained (imageIn e octets pages) (List.range' 3 count) (x.payload.drop x.kept) := by
  obtain ⟨hmore, hmost, hshares, hnext⟩ := h
  have hper : Chain.perPage (imageIn e octets pages) = 508 := rfl
  refine Chained.of_shares (fun hnil => ?_) ?_ ?_ fun k p hp => ?_
  · rw [hnil] at hmore
    cases hmore
  · rwa [List.length_range', hper]
  · rwa [List.length_range', hper]
  · obtain ⟨hk, rfl⟩ := List.getElem?_eq_some_iff.mp hp
    rw [List.length_range'] at hk
    have hpage : (imageIn e octets pages).IsPage (3 + k) := isPage (by omega) (by omega) hfew
    simp only [List.getElem_range', Nat.one_mul, hper]
    refine ⟨hpage, Small.holds hlength hpage (hshares k (List.mem_range.mpr hk)), fun q hq => ?_⟩
    obtain ⟨hlt, rfl⟩ := List.getElem?_eq_some_iff.mp hq
    rw [List.length_range'] at hlt
    rw [Image.numberIn, numberAt, octetsAt_image hlength hpage.pos hpage.le (by decide), hnext k (List.mem_range.mpr (by omega)),
      List.getElem_range']
    omega

/-- A leaf that keeps all its entries in full holds them. -/
theorem HasEntries.leaf {xs : List Entry} (h : HasEntries octets n kind xs) (hlength : octets.length = pages * 512)
    (hpage : (imageIn e octets pages).IsPage n) : Leaf (imageIn e octets pages) kind n xs := by
  obtain ⟨hcells, hsmall, hordered⟩ := h
  obtain ⟨hnode, hholds⟩ := hcells.holds (e := e) hlength hpage
  rw [List.length_map] at hnode
  refine ⟨hnode, fun x hx => (hsmall x hx).1, fun i x hi => ?_, hordered⟩
  obtain ⟨hlt, rfl⟩ := List.getElem?_eq_some_iff.mp hi
  obtain ⟨-, hfew, hlimit, hkept, hlow, hhigh, hrowid⟩ := hsmall _ (List.getElem_mem hlt)
  have hcell := hholds i (by rwa [List.length_map])
  rw [List.getElem_map] at hcell
  exact leafCell hpage hfew hlimit hkept hlow hhigh hrowid hcell

end

/-- A small file has the header of its image. -/
theorem fileHeader {e : Encoding} {octets : List UInt8} {pages : Nat} (hpos : 0 < pages) (hfew : pages < 0x100)
    (hlength : octets.length = pages * 512) (hfront : octets.take 100 = headerIn e pages.toUInt8) :
    FileHeader (imageIn e octets pages).content (imageIn e octets pages) := by
  have hpart (i k : Nat) (hle : i + k ≤ 100) :
      octetsAt (imageIn e octets pages).content i k = ((headerIn e pages.toUInt8).drop i).take k := by
    rw [← hfront, List.drop_take, List.take_take, Nat.min_eq_left (by omega)]
    exact octetsAt_toArray octets (by omega)
  have hoctet (i : Nat) (hle : i + 1 ≤ 100) :
      [octetAt (imageIn e octets pages).content i] = ((headerIn e pages.toUInt8).drop i).take 1 := by
    rw [← hpart i 1 hle, octetsAt_succ, octetsAt_zero]
  have hcount : numberAt (imageIn e octets pages).content 28 4 = pages := by
    rw [numberAt, hpart 28 4 (by omega)]
    show ((0 * 256 + 0) * 256 + 0) * 256 + pages.toUInt8.toNat = pages
    have := Text.Utf8.toNat_toUInt8 hfew
    omega
  have hstates : statesPages (imageIn e octets pages).content := by
    refine ⟨by omega, ?_⟩
    rw [hpart 24 4 (by omega), hpart 92 4 (by omega)]
    rfl
  exact {
    content := rfl
    magic := hpart 0 16 (by omega)
    pageSize := ⟨9, by omega, by omega, rfl⟩
    statedSize := congrArg bigEndian (hpart 16 2 (by omega))
    writeVersion := List.head_eq_of_cons_eq (hoctet 18 (by omega))
    readVersion := List.head_eq_of_cons_eq (hoctet 19 (by omega))
    reserved := by
      have : octetAt (imageIn e octets pages).content 20 = 0 := List.head_eq_of_cons_eq (hoctet 20 (by omega))
      rw [this]
      rfl
    usable := show 480 ≤ 512 by decide
    fractions := ⟨List.head_eq_of_cons_eq (hoctet 21 (by omega)), List.head_eq_of_cons_eq (hoctet 22 (by omega)),
      List.head_eq_of_cons_eq (hoctet 23 (by omega))⟩
    pageCount := hpos
    stated := fun _ => by
      refine ⟨hcount.symm, Nat.le_of_eq ?_⟩
      exact hlength.symm
    unstated := fun h => absurd hstates h
    schemaFormat := (congrArg bigEndian (hpart 44 4 (by omega))).symm
    knownFormat := ⟨show 1 ≤ 4 by decide, Nat.le_refl 4⟩
    isMapped := by
      have : numberAt (imageIn e octets pages).content 52 4 = 0 := congrArg bigEndian (hpart 52 4 (by omega))
      rw [this]
      constructor
      · intro hmapped
        cases hmapped
      · intro hne
        exact absurd rfl hne
    encoding := by
      rw [numberAt, hpart 56 4 (by omega)]
      cases e with
      | utf8 => rfl
      | utf16 order => cases order <;> rfl }

end Small
end FirstRow.Store
