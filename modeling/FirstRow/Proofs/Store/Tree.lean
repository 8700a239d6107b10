import FirstRow.Proofs.Store.Payload
import FirstRow.Store.Walk

/-!
# Trees hold entries

`Tree img kind levels n xs` says that the tree below page `n` has the entries `xs`, in order, and that it goes down
`levels` times to each of its leaves. It says nothing of where on a page the cells lie, nor of which numbers the pages
have. The cells of an interior page divide what its children hold: in a table by a key, which is no entry, and in an
index by an entry. Along a tree of a table row numbers ascend, and both walks give the entries as the tree holds them.
-/
namespace FirstRow.Store

/-- The octet at the head of a page of a tree. -/
def TreeKind.code : TreeKind → Bool → UInt8
  | .table, true => 13
  | .table, false => 5
  | .index, true => 10
  | .index, false => 2

namespace Image

/-- Where on a page the header of a tree page begins. -/
def treeStart (n : Nat) : Nat :=
  if n = 1 then 100 else 0

/-- How long the header of a tree page is. -/
def treeHeader (isLeaf : Bool) : Nat :=
  if isLeaf then 8 else 12

/-- Where a cell begins, by its pointer. -/
def cellAt (img : Image) (n : Nat) (isLeaf : Bool) (i : Nat) : Nat :=
  img.numberIn n (treeStart n + treeHeader isLeaf + 2 * i) 2

/-- The page of the child in front of a cell. -/
def childAt (img : Image) (n i : Nat) : Nat :=
  img.numberIn n (img.cellAt n false i) 4

/-- The page of the last child. -/
def lastAt (img : Image) (n : Nat) : Nat :=
  img.numberIn n (treeStart n + 8) 4

/-- A page as a reader of trees has it. -/
def treePage (img : Image) (kind : TreeKind) (n : Nat) (isLeaf : Bool) (count : Nat) : TreePage :=
  ⟨img.pageOf n, kind, isLeaf, count⟩

end Image

/-- A page has the header of a page of a tree. A cell takes at least four octets, and its pointer two. -/
structure Node (img : Image) (kind : TreeKind) (n : Nat) (isLeaf : Bool) (count : Nat) : Prop where
  isPage : img.IsPage n
  code : octetAt img.content (img.place n (Image.treeStart n)) = kind.code isLeaf
  cells : img.numberIn n (Image.treeStart n + 3) 2 = count
  room : 8 + 6 * count ≤ img.pageSize

instance (img : Image) (kind : TreeKind) (n : Nat) (isLeaf : Bool) (count : Nat) :
    Decidable (Node img kind n isLeaf count) :=
  decidable_of_iff (img.IsPage n ∧ octetAt img.content (img.place n (Image.treeStart n)) = kind.code isLeaf ∧
      img.numberIn n (Image.treeStart n + 3) 2 = count ∧ 8 + 6 * count ≤ img.pageSize)
    ⟨fun h => ⟨h.1, h.2.1, h.2.2.1, h.2.2.2⟩, fun h => ⟨h.isPage, h.code, h.cells, h.room⟩⟩

/-- The leaf at a page has some entries. Those of a table are in the order of their row numbers. -/
structure Leaf (img : Image) (kind : TreeKind) (n : Nat) (xs : List Entry) : Prop where
  node : Node img kind n true xs.length
  isRecord : ∀ x ∈ xs, x.IsRecord
  cell : ∀ i x, xs[i]? = some x → LeafCell img n (img.cellAt n true i) kind x
  ordered : kind = .table → xs.Pairwise fun x y => x.rowid < y.rowid

/-- What a cell holds behind its child page: the greatest row number that can be in front of it, or an entry that
stands between what is in front of the cell and what is behind it. -/
inductive Divides (img : Image) (n i : Nat) : TreeKind → List Entry → List Entry → List Entry → Prop where
  | key {k : Int} {b : Nat} {left right : List Entry} : Varint.Fits b (Varint.unsigned k) →
      img.Holds n i (Varint.encodeIn b (Varint.unsigned k)) → (∀ x ∈ left, x.rowid ≤ k) → (∀ x ∈ right, k < x.rowid) →
      Divides img n i .table left [] right
  | entry {x : Entry} {left right : List Entry} : x.IsRecord → LeafCell img n i .index x →
      Divides img n i .index left [x] right

/-- The children of an interior page with `count` cells, from the one in front of a cell on, have some entries. `P` says
of a page which entries are below it. -/
inductive Children (img : Image) (kind : TreeKind) (P : Nat → List Entry → Prop) (n count : Nat) :
    Nat → List Entry → Prop where
  | last {xs : List Entry} : xs ≠ [] → P (img.lastAt n) xs → Children img kind P n count count xs
  | more {i : Nat} {left between right : List Entry} : left ≠ [] → P (img.childAt n i) left →
      Divides img n (img.cellAt n false i + 4) kind left between right → Children img kind P n count (i + 1) right →
      Children img kind P n count i (left ++ between ++ right)

/-- The tree below a page has some entries, in order; one goes down `levels` times to its leaves. -/
def Tree (img : Image) (kind : TreeKind) : Nat → Nat → List Entry → Prop
  | 0, n, xs => Leaf img kind n xs
  | levels + 1, n, xs =>
    ∃ count, 0 < count ∧ Node img kind n false count ∧ Children img kind (Tree img kind levels) n count 0 xs

/-- The left edge of a tree goes down so many times, from a page to the first leaf. No page on it is empty. -/
inductive LeftEdge (img : Image) (kind : TreeKind) : Nat → Nat → Nat → Prop where
  | leaf {n count : Nat} : Node img kind n true count → 0 < count → LeftEdge img kind 0 n n
  | down {levels n m count : Nat} : Node img kind n false count → 0 < count → img.cellAt n false 0 + 4 < img.usable →
      LeftEdge img kind levels (img.childAt n 0) m → LeftEdge img kind (levels + 1) n m

variable {img : Image} {kind : TreeKind}

/-! ## Pages of trees -/

namespace Node

variable {n count : Nat} {isLeaf : Bool}

theorem kindOf_code (kind : TreeKind) (isLeaf : Bool) : TreePage.kindOf (kind.code isLeaf) = some (kind, isLeaf) := by
  cases kind <;> cases isLeaf <;> rfl

theorem headerStart_eq (img : Image) (n : Nat) : TreePage.headerStart (img.pageOf n) = Image.treeStart n := rfl

theorem treeStart_le (n : Nat) : Image.treeStart n ≤ 100 := by
  unfold Image.treeStart
  split <;> omega

theorem load_eq (h : Node img kind n isLeaf count) (hp : img.Proper) :
    TreePage.load img n = .ok (img.treePage kind n isLeaf count) := by
  have hstart := treeStart_le n
  have hsize := hp.pageSize_ge
  have hcode : octetAt (img.pageOf n).octets (Image.treeStart n) = kind.code isLeaf := by
    have hfits : Image.treeStart n + 1 ≤ img.pageSize := by omega
    have hone := Image.octetsAt_pageOf h.isPage.pos hfits
    rw [octetsAt_succ, octetsAt_succ, h.code] at hone
    exact List.head_eq_of_cons_eq hone
  have hcount : numberAt (img.pageOf n).octets (Image.treeStart n + 3) 2 = count := by
    rw [Image.numberAt_pageOf h.isPage.pos (by omega), h.cells]
  have hroom := h.room
  have hmax : ¬TreePage.maxCells img < count := by
    unfold TreePage.maxCells
    omega
  simp only [TreePage.load, Image.page_eq h.isPage, bind, Except.bind, TreePage.ofPage, headerStart_eq, hcode,
    kindOf_code, hcount, if_neg hmax]
  rfl

/-- A cell begins where its pointer says. -/
theorem cellStart_eq (h : Node img kind n isLeaf count) (hp : img.Proper) {i : Nat} (hi : i < count)
    (hcell : img.cellAt n isLeaf i < img.pageSize) :
    (img.treePage kind n isLeaf count).cellStart img i = img.cellAt n isLeaf i := by
  have hstart := treeStart_le n
  have hsize := hp.pageSize_ge
  have hroom := h.room
  have hpointer : TreePage.pointerStart (img.treePage kind n isLeaf count) =
      Image.treeStart n + Image.treeHeader isLeaf := rfl
  have hheader : Image.treeHeader isLeaf ≤ 12 := by cases isLeaf <;> decide
  unfold TreePage.cellStart
  rw [hpointer]
  show numberAt (img.pageOf n).octets _ 2 % img.pageSize = _
  rw [Image.numberAt_pageOf h.isPage.pos (by omega)]
  exact Nat.mod_eq_of_lt hcell

theorem lastChild_eq (h : Node img kind n isLeaf count) (hp : img.Proper) :
    (img.treePage kind n isLeaf count).lastChild = img.lastAt n := by
  have hstart := treeStart_le n
  have hsize := hp.pageSize_ge
  have hplace : Image.treeStart n + 8 + 4 ≤ img.pageSize := by omega
  exact Image.numberAt_pageOf h.isPage.pos hplace

theorem childBefore_eq (h : Node img kind n false count) (hp : img.Proper) {i : Nat} (hi : i < count)
    (hcell : img.cellAt n false i + 4 < img.usable) :
    (img.treePage kind n false count).childBefore img i = img.childAt n i := by
  have husable := hp.usable_le
  unfold TreePage.childBefore
  rw [h.cellStart_eq hp hi (by omega)]
  exact Image.numberAt_pageOf h.isPage.pos (by omega)

end Node

theorem Divides.start_lt {n i : Nat} {left between right : List Entry} (h : Divides img n i kind left between right) :
    i < img.usable := by
  cases h with
  | key hb hholds _ _ =>
    have := hholds.within
    rw [Varint.length_encodeIn hb.pos] at this
    have := hb.pos
    omega
  | entry _ hcell => exact hcell.start_lt

/-- The entries of a leaf are read from it. -/
theorem Leaf.isAt {n : Nat} {xs : List Entry} (h : Leaf img kind n xs) (hp : img.Proper) {i : Nat} {x : Entry}
    (hi : xs[i]? = some x) : x.IsAt img kind (.ofLeaf img (img.treePage kind n true xs.length) i) := by
  have husable := hp.usable_le
  have hcell := h.cell i x hi
  have hstart := hcell.start_lt
  rw [← h.node.cellStart_eq hp (List.getElem?_eq_some_iff.mp hi).1 (by omega)] at hcell
  exact hcell.isAt hp rfl rfl (h.isRecord x (List.mem_of_getElem? hi))

/-! ## What trees hold -/

namespace Children

variable {P : Nat → List Entry → Prop} {n count i : Nat} {xs : List Entry}

theorem le (h : Children img kind P n count i xs) : i ≤ count := by
  induction h with
  | last => exact Nat.le_refl _
  | more _ _ _ _ ih => omega

theorem ne_nil (h : Children img kind P n count i xs) : xs ≠ [] := by
  cases h with
  | last hne => exact hne
  | more hne => simp [hne]

/-- If row numbers ascend in every child, they do in all children together. -/
theorem ordered (h : Children img .table P n count i xs)
    (hP : ∀ m ys, P m ys → ys.Pairwise fun x y => x.rowid < y.rowid) : xs.Pairwise fun x y => x.rowid < y.rowid := by
  induction h with
  | last _ hlast => exact hP _ _ hlast
  | more _ hleft hdivides _ ih =>
    cases hdivides with
    | key _ _ hbefore hbehind =>
      rw [List.append_nil, List.pairwise_append]
      refine ⟨hP _ _ hleft, ih, fun x hx y hy => ?_⟩
      have := hbefore x hx
      have := hbehind y hy
      omega

end Children

namespace Tree

variable {levels n : Nat} {xs : List Entry}

/-- Row numbers ascend along a tree of a table. -/
theorem ordered (h : Tree img .table levels n xs) : xs.Pairwise fun x y => x.rowid < y.rowid := by
  induction levels generalizing n xs with
  | zero => exact Leaf.ordered h rfl
  | succ levels ih =>
    obtain ⟨count, -, -, hchildren⟩ := h
    exact hchildren.ordered fun m ys hys => ih hys

/-- The entry with the least row number is the first one of a tree. -/
theorem head_of_least (h : Tree img .table levels n xs) {x : Entry} (hx : x ∈ xs) (hleast : ∀ y ∈ xs, x.rowid ≤ y.rowid) :
    ∃ rest, xs = x :: rest := by
  have hordered := h.ordered
  cases xs with
  | nil => cases hx
  | cons y ys =>
    rcases List.mem_cons.mp hx with rfl | hmem
    · exact ⟨ys, rfl⟩
    · have := hleast y (by simp)
      have := List.rel_of_pairwise_cons hordered hmem
      omega

/-- The first entry of a tree is the first one of the leaf at the end of its left edge. -/
theorem leftEdge {x : Entry} {rest : List Entry} (h : Tree img kind levels n (x :: rest)) :
    ∃ m, LeftEdge img kind levels n m ∧ x.IsRecord ∧ LeafCell img m (img.cellAt m true 0) kind x := by
  induction levels generalizing n x rest with
  | zero =>
    have hleaf : Leaf img kind n (x :: rest) := h
    exact ⟨n, .leaf hleaf.node (Nat.succ_pos _), hleaf.isRecord x (by simp), hleaf.cell 0 x rfl⟩
  | succ levels ih =>
    obtain ⟨count, hpos, hnode, hchildren⟩ := h
    generalize hxs : x :: rest = xs at hchildren
    generalize hzero : 0 = i at hchildren
    cases hchildren with
    | last => omega
    | @more _ left between right hleft hchild hdivides _ =>
      subst hzero
      obtain ⟨y, ys, rfl⟩ := List.exists_cons_of_ne_nil hleft
      obtain rfl : x = y := List.head_eq_of_cons_eq (by simpa using hxs)
      obtain ⟨m, hedge, hfirst⟩ := ih hchild
      exact ⟨m, .down hnode hpos hdivides.start_lt hedge, hfirst⟩

/-- The root of a tree is a page of one, and it has no cells only where there are no entries. -/
theorem exists_node (h : Tree img kind levels n xs) :
    ∃ isLeaf count, Node img kind n isLeaf count ∧ (count = 0 ↔ xs = []) ∧ (count = 0 → isLeaf = true) := by
  cases levels with
  | zero => exact ⟨true, xs.length, Leaf.node h, List.length_eq_zero_iff, fun _ => rfl⟩
  | succ levels =>
    obtain ⟨count, hpos, hnode, hchildren⟩ := h
    have hne := hchildren.ne_nil
    exact ⟨false, count, hnode, by simp [hne]; omega, by omega⟩

end Tree

/-! ## Walks -/

namespace Walk

variable {levels n : Nat} {xs : List Entry}

/-- A page of a tree is found by its number. -/
theorem root_eq {isLeaf : Bool} {count : Nat} (h : Node img kind n isLeaf count) (hp : img.Proper) :
    root img kind n = .ok (img.treePage kind n isLeaf count) := by
  unfold root
  rw [h.load_eq hp, Chain.ok_bind]
  exact if_neg (by simp [Image.treePage])

theorem child_eq {isLeaf : Bool} {count : Nat} (h : Node img kind n isLeaf count) (hp : img.Proper) (hcount : count ≠ 0) :
    child img kind n = .ok (img.treePage kind n isLeaf count) := by
  unfold child
  rw [h.load_eq hp, Chain.ok_bind]
  exact if_neg (by simp [Image.treePage, hcount])

/-- Going down the left edge of a tree leads to its first leaf. -/
theorem leftmost_eq (hp : img.Proper) {m : Nat} (h : LeftEdge img kind levels n m) {k : Nat} (hk : levels ≤ k) :
    ∃ isLeaf count leafCount, Node img kind n isLeaf count ∧ 0 < count ∧ Node img kind m true leafCount ∧ 0 < leafCount ∧
      leftmost img k (img.treePage kind n isLeaf count) = .ok (img.treePage kind m true leafCount) := by
  induction h generalizing k with
  | leaf hnode hpos =>
    refine ⟨true, _, _, hnode, hpos, hnode, hpos, ?_⟩
    cases k <;> rfl
  | @down levels n m count hnode hpos hcell _ ih =>
    obtain ⟨k, rfl⟩ : ∃ j, k = j + 1 := ⟨k - 1, by omega⟩
    obtain ⟨isLeaf, below, leafCount, hbelow, hbelow_pos, hleaf, hleaf_pos, hdown⟩ := ih (Nat.le_of_succ_le_succ hk)
    refine ⟨false, count, leafCount, hnode, hpos, hleaf, hleaf_pos, ?_⟩
    unfold leftmost
    rw [if_neg (by simp [Image.treePage]), hnode.childBefore_eq hp hpos hcell]
    show child img kind _ >>= _ = _
    rw [child_eq hbelow hp (Nat.pos_iff_ne_zero.mp hbelow_pos), Chain.ok_bind]
    exact hdown

/-- The first cell of the first leaf is found. -/
theorem first?_eq (hp : img.Proper) {m : Nat} (h : LeftEdge img kind levels n m) (hlevels : levels ≤ maxDescents) :
    ∃ count, Node img kind m true count ∧ 0 < count ∧
      first? img kind n = .ok (some (.ofLeaf img (img.treePage kind m true count) 0)) := by
  obtain ⟨isLeaf, count, leafCount, hnode, hpos, hleaf, hleaf_pos, hdown⟩ := leftmost_eq hp h hlevels
  refine ⟨leafCount, hleaf, hleaf_pos, ?_⟩
  unfold first?
  rw [root_eq hnode hp, Chain.ok_bind,
    if_neg (show (img.treePage kind n isLeaf count).cellCount ≠ 0 from Nat.pos_iff_ne_zero.mp hpos), hdown]
  rfl

/-- A tree without entries has no first one. -/
theorem first?_nil (hp : img.Proper) (h : Tree img kind levels n []) : first? img kind n = .ok none := by
  obtain ⟨isLeaf, count, hnode, hcount, hleaf⟩ := h.exists_node
  obtain rfl := hcount.mpr rfl
  obtain rfl := hleaf rfl
  unfold first?
  rw [root_eq hnode hp]
  rfl

/-- The first entry of a tree is found. -/
theorem first?_cons (hp : img.Proper) {x : Entry} {rest : List Entry} (h : Tree img kind levels n (x :: rest))
    (hlevels : levels ≤ maxDescents) : ∃ c, first? img kind n = .ok (some c) ∧ x.IsAt img kind c := by
  have husable := hp.usable_le
  obtain ⟨m, hedge, hrecord, hcell⟩ := h.leftEdge
  obtain ⟨count, hnode, hpos, hfirst⟩ := first?_eq hp hedge hlevels
  have hstart := hcell.start_lt
  refine ⟨_, hfirst, LeafCell.isAt hp rfl rfl hrecord ?_⟩
  rwa [hnode.cellStart_eq hp hpos (by omega)]

theorem concat_cons {cells more : List Cell} {visits : List Visit} (h : concat visits = (more, none)) :
    concat ((cells, none) :: visits) = (cells ++ more, none) := by
  simp only [concat, h]

/-- If the entries below every child are visited, those below all children are. -/
theorem concat_eq {P : Nat → List Entry → Prop} {count i : Nat} {children : Nat → Nat} {visit : Nat → Visit}
    (hvisit : ∀ m ys, ys ≠ [] → P m ys →
      ∃ cells, visit m = (cells, none) ∧ List.Forall₂ (Entry.IsAt img .table) ys cells)
    (hchildren : ∀ j, j < count → img.cellAt n false j + 4 < img.usable → children j = img.childAt n j)
    (h : Children img .table P n count i xs) :
    ∃ cells, concat (((List.range' i (count - i)).map children ++ [img.lastAt n]).map visit) = (cells, none) ∧
      List.Forall₂ (Entry.IsAt img .table) xs cells := by
  induction h with
  | last hne hlast =>
    obtain ⟨cells, heq, hcells⟩ := hvisit _ _ hne hlast
    refine ⟨cells, ?_, hcells⟩
    simp [heq, concat]
  | @more i left between right hne hleft hdivides hrest ih =>
    have hle := hrest.le
    obtain ⟨cells, heq, hcells⟩ := hvisit _ _ hne hleft
    obtain ⟨more, hmore, hmores⟩ := ih
    have hrange : List.range' i (count - i) = i :: List.range' (i + 1) (count - (i + 1)) := by
      rw [show count - i = (count - (i + 1)) + 1 by omega, List.range'_succ]
    refine ⟨cells ++ more, ?_, ?_⟩
    · rw [hrange, List.map_cons, List.cons_append, List.map_cons, hchildren i (by omega) hdivides.start_lt, heq]
      exact concat_cons hmore
    · cases hdivides with
      | key =>
        rw [List.append_nil]
        exact List.rel_append hcells hmores

/-- All entries of a leaf are visited. -/
theorem leaf_cells (hp : img.Proper) (h : Leaf img kind n xs) :
    List.Forall₂ (Entry.IsAt img kind) xs
      ((List.range xs.length).map (.ofLeaf img (img.treePage kind n true xs.length))) := by
  rw [List.forall₂_iff_get]
  refine ⟨by simp, fun i hi _ => ?_⟩
  simpa using h.isAt hp (List.getElem?_eq_getElem hi)

/-- Visit the entries below a child. -/
def belowChild (img : Image) (levels n : Nat) : Visit :=
  match child img .table n with
  | .error e => ([], some e)
  | .ok t => below img levels t

/-- A walk visits all entries of a tree in order. -/
theorem below_eq (hp : img.Proper) (h : Tree img .table levels n xs) {k : Nat} (hk : levels ≤ k) :
    ∃ isLeaf count cells, Node img .table n isLeaf count ∧ (count = 0 ↔ xs = []) ∧
      below img k (img.treePage .table n isLeaf count) = (cells, none) ∧
      List.Forall₂ (Entry.IsAt img .table) xs cells := by
  induction levels generalizing n xs k with
  | zero =>
    refine ⟨true, _, _, Leaf.node h, List.length_eq_zero_iff, ?_, leaf_cells hp h⟩
    cases k <;> rfl
  | succ levels ih =>
    obtain ⟨count, hpos, hnode, hchildren⟩ := h
    obtain ⟨k, rfl⟩ : ∃ m, k = m + 1 := ⟨k - 1, by omega⟩
    have hne := hchildren.ne_nil
    have hvisit (m : Nat) (ys : List Entry) (hys : ys ≠ []) (htree : Tree img .table levels m ys) :
        ∃ cells, belowChild img k m = (cells, none) ∧ List.Forall₂ (Entry.IsAt img .table) ys cells := by
      obtain ⟨isLeaf, count, cells, hchild, hcount, hbelow, hcells⟩ := ih htree (Nat.le_of_succ_le_succ hk)
      refine ⟨cells, ?_, hcells⟩
      rw [belowChild, child_eq hchild hp (fun hzero => hys (hcount.mp hzero))]
      exact hbelow
    obtain ⟨cells, hcells, hentries⟩ := concat_eq hvisit (fun j hj => hnode.childBefore_eq hp hj) hchildren
    refine ⟨false, count, cells, hnode, by simp [hne]; omega, ?_, hentries⟩
    unfold below TreePage.children
    rw [if_neg (by simp [Image.treePage]), hnode.lastChild_eq hp, List.range_eq_range']
    exact hcells

/-- The entries of the table at the first page are visited in order. -/
theorem schema_eq (hp : img.Proper) (h : Tree img .table levels 1 xs) (hlevels : levels ≤ maxDescents) :
    ∃ cells, schema img = (cells, none) ∧ List.Forall₂ (Entry.IsAt img .table) xs cells := by
  obtain ⟨isLeaf, count, cells, hnode, -, hbelow, hcells⟩ := below_eq hp h hlevels
  have hpage := hnode.isPage.le
  refine ⟨cells, ?_, hcells⟩
  unfold schema
  rw [if_neg (by omega), root_eq hnode hp]
  exact hbelow

end Walk
end FirstRow.Store
