import FirstRow.Proofs.Store.Chain
import FirstRow.Proofs.Store.Varint
import FirstRow.Store.Cell
import Mathlib.Data.List.Perm.Subperm

/-!
# Payloads in pages

`Spread` says where a payload stands: the page of its cell keeps what the rule for local sizes leaves there, and a chain
holds the rest. Nothing is said of what the payload means. Reading any part of it gives that part, whatever parts were
read before; `Yields` and `Gives` are what such readers have in common.
-/
namespace FirstRow.Store

/-! ## Readers of chains -/

/-- From any known pages of a chain a reader has an outcome. Where that is a value, the pages that are known then are
again of the chain. -/
def Yields {α : Type} (pages : List Nat) (r : ChainReader α) (outcome : Except Error α) : Prop :=
  ∀ known, Known pages known →
    match outcome with
    | .ok a => ∃ known', Known pages known' ∧ r.run known = .ok (a, known')
    | .error e => r.run known = .error e

/-- From any known pages of a chain a reader gives a value, and known pages of the chain again. -/
def Gives {α : Type} (pages : List Nat) (r : ChainReader α) (a : α) : Prop :=
  ∀ known, Known pages known → ∃ known', Known pages known' ∧ r.run known = .ok (a, known')

namespace Yields

variable {α β : Type} {pages : List Nat}

theorem throw (e : Error) : Yields pages (MonadExcept.throw e : ChainReader α) (.error e) :=
  fun _ _ => rfl

/-- What does not look at the chain. -/
theorem lift (outcome : Except Error α) : Yields pages (monadLift outcome) outcome := by
  intro known hk
  cases outcome with
  | ok a => exact ⟨known, hk, rfl⟩
  | error e => rfl

theorem bind {r : ChainReader α} {f : α → ChainReader β} {outcome : Except Error α} {g : α → Except Error β}
    (hr : Yields pages r outcome) (hf : ∀ a, outcome = .ok a → Yields pages (f a) (g a)) :
    Yields pages (r >>= f) (outcome >>= g) := by
  intro known hk
  have hrun := hr known hk
  rw [StateT.run_bind]
  cases outcome with
  | error e =>
    rw [show r.run known = .error e from hrun]
    rfl
  | ok a =>
    obtain ⟨known₁, hk₁, h₁⟩ := hrun
    rw [h₁]
    exact hf a rfl known₁ hk₁

/-- Readers that are run one after the other. -/
theorem mapM {f : α → ChainReader β} {g : α → Except Error β} {as : List α}
    (h : ∀ a ∈ as, Yields pages (f a) (g a)) : Yields pages (as.mapM f) (as.mapM g) := by
  induction as with
  | nil => exact lift (.ok [])
  | cons a as ih =>
    rw [List.mapM_cons, List.mapM_cons]
    refine (h a (by simp)).bind fun b _ => ?_
    refine (ih fun c hc => h c (List.mem_cons_of_mem a hc)).bind fun bs _ => ?_
    exact lift (.ok (b :: bs))

theorem run' {r : ChainReader α} {outcome : Except Error α} (h : Yields pages r outcome) : r.run' #[] = outcome := by
  have hrun := h #[] (Known.empty pages)
  rw [StateT.run'_eq]
  cases outcome with
  | error e =>
    rw [show r.run #[] = .error e from hrun]
    rfl
  | ok a =>
    obtain ⟨known, -, heq⟩ := hrun
    rw [heq]
    rfl

end Yields

namespace Gives

variable {α β : Type} {pages : List Nat}

theorem yields {r : ChainReader α} {a : α} (h : Gives pages r a) : Yields pages r (.ok a) := h

theorem pure (a : α) : Gives pages (Pure.pure a) a :=
  Yields.lift (.ok a)

theorem bind {r : ChainReader α} {f : α → ChainReader β} {a : α} {b : β} (hr : Gives pages r a)
    (hf : Gives pages (f a) b) : Gives pages (r >>= f) b := by
  refine hr.yields.bind (g := fun _ => .ok b) fun a' ha => ?_
  cases ha
  exact hf.yields

/-- What does not look at the chain. -/
theorem lift {e : Except Error α} {a : α} (h : e = .ok a) : Gives pages (monadLift e) a := by
  rw [h]
  exact Yields.lift (.ok a)

theorem run' {r : ChainReader α} {a : α} (h : Gives pages r a) : r.run' #[] = .ok a :=
  h.yields.run'

end Gives

/-! ## Where a payload stands -/

/-- How much of a payload of `size` octets a page keeps: all of it if that is at most `most`; else as much as leaves no
overflow page partly empty, if that is at most `most`; else `least`. -/
inductive Keeps (usable least most size : Nat) : Nat → Prop where
  | all : size ≤ most → Keeps usable least most size size
  | fitting : most < size → least + (size - least) % (usable - 4) ≤ most →
      Keeps usable least most size (least + (size - least) % (usable - 4))
  | least : most < size → most < least + (size - least) % (usable - 4) → Keeps usable least most size least

/-- The greatest number of octets of a payload on a leaf. -/
def leafLimit (usable : Nat) : TreeKind → Nat
  | .table => usable - 35
  | .index => (usable - 12) * 64 / 255 - 23

/-- A payload stands on a page from an index on, as far as the page keeps it, and goes on in a chain of pages. -/
structure Spread (img : Image) (kind : TreeKind) (n i : Nat) (payload : List UInt8) (kept : Nat) (pages : List Nat) :
    Prop where
  isPage : img.IsPage n
  limit : payload.length < 0x80000000
  keeps : Keeps img.usable ((img.usable - 12) * 32 / 255 - 23) (leafLimit img.usable kind) payload.length kept
  here : img.Holds n i (payload.take kept)
  overflow : kept = payload.length ∧ pages = [] ∨
    i + kept + 4 ≤ img.usable ∧ pages.head? = some (img.numberIn n (i + kept) 4) ∧ (n :: pages).Nodup ∧
      Chained img pages (payload.drop kept)

/-- The cell of a row number and a payload of which a page keeps so much from an index on. -/
def Image.cell (img : Image) (n i : Nat) (rowid : Int) (payload : List UInt8) (kept : Nat) : Cell :=
  ⟨img.pageOf n, rowid, payload.length, kept, i⟩

namespace Keeps

variable {usable least most size kept : Nat}

theorem eq (h : Keeps usable least most size kept) : keptOnPage usable least most size = kept := by
  unfold keptOnPage
  cases h with
  | all h => rw [if_pos h]
  | fitting h h' => rw [if_neg (by omega)]; exact if_pos h'
  | least h h' => rw [if_neg (by omega)]; exact if_neg (by omega)

theorem le (h : Keeps usable least most size kept) (hle : least ≤ most) : kept ≤ size := by
  cases h with
  | all => exact Nat.le_refl _
  | fitting h => omega
  | least h => omega

/-- A payload that goes on elsewhere leaves at least the least on its page. -/
theorem ge (h : Keeps usable least most size kept) : kept = size ∨ least ≤ kept := by
  cases h with
  | all => exact .inl rfl
  | fitting => exact .inr (Nat.le_add_right _ _)
  | least => exact .inr (Nat.le_refl _)

end Keeps

namespace Spread

variable {img : Image} {kind : TreeKind} {n i : Nat} {payload : List UInt8} {kept : Nat}
  {pages : List Nat}

theorem limit_ge (hp : img.Proper) (kind : TreeKind) :
    35 ≤ (img.usable - 12) * 32 / 255 - 23 ∧ (img.usable - 12) * 32 / 255 - 23 ≤ leafLimit img.usable kind := by
  have := hp.usable_ge
  unfold leafLimit
  cases kind <;> simp only <;> omega

/-- A payload that its page holds in full. -/
theorem of_holds (hp : img.Proper) (hpage : img.IsPage n) (hlimit : payload.length ≤ leafLimit img.usable kind)
    (h : img.Holds n i payload) : Spread img kind n i payload payload.length [] where
  isPage := hpage
  limit := by
    have hwithin := h.within
    have husable := hp.usable_le
    have hsize := hp.pageSize_le
    omega
  keeps := .all hlimit
  here := by rwa [List.take_length]
  overflow := .inl ⟨rfl, rfl⟩

/-- A reader finds how much the page keeps. -/
theorem kept_eq (h : Spread img kind n i payload kept pages) :
    keptOnPage img.usable (leastKept img.usable) (mostKept img.usable kind) payload.length = kept := by
  have hmost : leafLimit img.usable kind = mostKept img.usable kind := by cases kind <;> rfl
  rw [← hmost]
  exact h.keeps.eq

theorem kept_le (h : Spread img kind n i payload kept pages) (hp : img.Proper) : kept ≤ payload.length :=
  h.keeps.le (limit_ge hp kind).2

theorem length_here (h : Spread img kind n i payload kept pages) (hp : img.Proper) :
    (payload.take kept).length = kept := by
  have := h.kept_le hp
  simp
  omega

/-- What the page keeps ends in front of its reserved octets. -/
theorem within (h : Spread img kind n i payload kept pages) (hp : img.Proper) : i + kept ≤ img.usable := by
  have := h.here.within
  rwa [h.length_here hp] at this

/-- Pages that are all different are no more than the file has. -/
theorem length_le_pageCount {ps : List Nat} (hnodup : ps.Nodup) (hpages : ∀ p ∈ ps, img.IsPage p) :
    ps.length ≤ img.pageCount := by
  have hsub : ps ⊆ List.range' 1 img.pageCount := by
    intro p hmem
    have := (hpages p hmem).pos
    have := (hpages p hmem).le
    rw [List.mem_range'_1]
    omega
  simpa using (hnodup.subperm hsub).length_le

/-- A payload is no longer than all pages together. -/
theorem length_le_totalSize (h : Spread img kind n i payload kept pages) (hp : img.Proper) :
    payload.length ≤ img.totalSize := by
  have hwithin := h.within hp
  have husable := hp.usable_le
  have hcount : 0 < img.pageCount := Nat.lt_of_lt_of_le h.isPage.pos h.isPage.le
  unfold Image.totalSize
  rcases h.overflow with ⟨heq, -⟩ | ⟨-, -, hnodup, hchain⟩
  · have := Nat.mul_le_mul_left img.pageSize hcount
    omega
  · have hpages : ∀ p ∈ n :: pages, img.IsPage p := by
      intro p hmem
      rcases List.mem_cons.mp hmem with heq | hmem
      · exact heq ▸ h.isPage
      · exact hchain.isPage p hmem
    have hlen := length_le_pageCount hnodup hpages
    have hrest := hchain.length_le
    have hper : Chain.perPage img ≤ img.pageSize := by
      unfold Chain.perPage
      omega
    have hmul := Nat.mul_le_mul_left img.pageSize hlen
    have hshare := Nat.mul_le_mul_left pages.length hper
    rw [List.length_cons, Nat.mul_succ, Nat.mul_comm img.pageSize] at hmul
    rw [List.length_drop] at hrest
    omega

/-- What stands on the page is read from it. -/
theorem octetsAt_here (h : Spread img kind n i payload kept pages) (hp : img.Proper) {offset length : Nat}
    (hle : offset + length ≤ kept) :
    octetsAt (img.pageOf n).octets (i + offset) length = (payload.drop offset).take length := by
  have hwithin := h.within hp
  have husable := hp.usable_le
  rw [Image.octetsAt_pageOf h.isPage.pos (by omega), Image.place_add,
    octetsAt_part h.here.octets (by rw [h.length_here hp]; exact hle), List.drop_take, List.take_take,
    Nat.min_eq_left (by omega)]

/-- Reading a part of the payload gives that part. -/
theorem read_gives (h : Spread img kind n i payload kept pages) (hp : img.Proper) (hm : img.isMapped = true → img.Mapped)
    {offset length : Nat} (hle : offset + length ≤ payload.length) (rowid : Int) :
    Gives pages ((img.cell n i rowid payload kept).read img offset length) ((payload.drop offset).take length) := by
  have hwithin := h.within hp
  have husable := hp.usable_le
  have hstart : ¬img.usable < (img.cell n i rowid payload kept).start + (img.cell n i rowid payload kept).kept := by
    simp only [Image.cell]
    omega
  unfold Cell.read
  rw [if_neg hstart]
  simp only [Image.cell]
  by_cases hhere : min length (kept - offset) = length
  · -- nothing is needed from the chain
    simp only [hhere, if_true]
    rcases Nat.eq_zero_or_pos length with rfl | hpos
    · have hnothing : Gives pages (Pure.pure [] : ChainReader (List UInt8)) [] := Gives.pure []
      simpa using hnothing
    · rw [h.octetsAt_here hp (by omega)]
      exact Gives.pure _
  · simp only [hhere, if_false]
    rcases h.overflow with ⟨heq, -⟩ | ⟨hroom, hfirst, hnodup, hchain⟩
    · omega
    obtain ⟨rest, rfl⟩ : ∃ rest, pages = img.numberIn n (i + kept) 4 :: rest := by
      cases pages with
      | nil => cases hfirst
      | cons p rest => exact ⟨rest, by rw [Option.some.inj hfirst]⟩
    have href : numberAt (img.pageOf n).octets (i + kept) 4 = img.numberIn n (i + kept) 4 :=
      Image.numberAt_pageOf h.isPage.pos (by omega)
    have hhead : octetsAt (img.pageOf n).octets (i + offset) (min length (kept - offset)) =
        (payload.drop offset).take (min length (kept - offset)) := by
      by_cases hoff : offset ≤ kept
      · exact h.octetsAt_here hp (by omega)
      · rw [show min length (kept - offset) = 0 by omega]
        rfl
    have hdrop : (payload.drop kept).drop (offset - kept) =
        payload.drop (offset + min length (kept - offset)) := by
      rw [List.drop_drop]
      congr 1
      omega
    have hpart : Gives (img.numberIn n (i + kept) 4 :: rest)
        (Chain.read img (img.numberIn n (i + kept) 4) (offset - kept) (length - min length (kept - offset)))
        ((payload.drop (offset + min length (kept - offset))).take (length - min length (kept - offset))) := by
      intro known hk
      rw [← hdrop]
      exact Chain.read_eq hp hm hchain (by omega) (by rw [List.length_drop]; omega) hk
    rw [href, hhead]
    have hsplit := take_drop_split payload offset (Nat.min_le_left length (kept - offset))
    rw [← hsplit]
    exact hpart.bind (Gives.pure _)

end Spread

/-! ## Cells -/

/-- A cell on a leaf holds a payload that begins at an index, right behind its length and, in a table, the number of its
row. A length is written in up to eight octets, or in nine if it has only seven bits. -/
inductive PayloadCell (img : Image) (n i : Nat) : TreeKind → Int → List UInt8 → Nat → Nat → Prop where
  | table {rowid : Int} {payload : List UInt8} {kept a b : Nat} {pages : List Nat} : Varint.Fits a payload.length →
      a ≤ 8 ∨ payload.length < 0x80 → -0x8000000000000000 ≤ rowid → rowid < 0x8000000000000000 →
      Varint.Fits b (Varint.unsigned rowid) →
      img.Holds n i (Varint.encodeIn a payload.length ++ Varint.encodeIn b (Varint.unsigned rowid)) →
      Spread img .table n (i + a + b) payload kept pages → PayloadCell img n i .table rowid payload kept (i + a + b)
  | index {payload : List UInt8} {kept a : Nat} {pages : List Nat} : Varint.Fits a payload.length →
      a ≤ 8 ∨ payload.length < 0x80 → img.Holds n i (Varint.encodeIn a payload.length) →
      Spread img .index n (i + a) payload kept pages → PayloadCell img n i .index 0 payload kept (i + a)

namespace Cell

variable {img : Image} {n i : Nat} {t : TreePage} {payload : List UInt8} {kept : Nat} {pages : List Nat}

/-- The cell of a row: its length, its number and its payload are read, each where the one in front of it ends. -/
theorem ofLeaf_table (hp : img.Proper) (hpage : t.page = img.pageOf n) (hkind : t.kind = .table) {rowid : Int}
    {a b v : Nat} (ha : Varint.Fits a v) (hv : Varint.lengthOf a v = payload.length)
    (hlow : -0x8000000000000000 ≤ rowid) (hhigh : rowid < 0x8000000000000000)
    (hb : Varint.Fits b (Varint.unsigned rowid))
    (hholds : img.Holds n (t.cellStart img i) (Varint.encodeIn a v ++ Varint.encodeIn b (Varint.unsigned rowid)))
    (h : Spread img .table n (t.cellStart img i + a + b) payload kept pages) :
    ofLeaf img t i = img.cell n (t.cellStart img i + a + b) rowid payload kept := by
  have hpos := h.isPage.pos
  have hlimit := h.limit
  have hsize := hholds.left.octetsAt_pageOf hp hpos
  have hrowid := hholds.right.octetsAt_pageOf hp hpos
  rw [Varint.length_encodeIn ha.pos] at hsize hrowid
  rw [Varint.length_encodeIn hb.pos] at hrowid
  have hlength : Varint.decodeLength (octetsAt (img.pageOf n).octets (t.cellStart img i) 9) = (payload.length, a) := by
    rw [Varint.decodeLength_octetsAt ha (by omega) hsize ha.le, hv]
  unfold ofLeaf
  simp only [hpage, hkind, hlength, Varint.decode_octetsAt hb hrowid hb.le, Varint.signed_unsigned hlow hhigh, h.kept_eq]
  rfl

/-- The cell of an entry of an index. -/
theorem ofLeaf_index (hp : img.Proper) (hpage : t.page = img.pageOf n) (hkind : t.kind = .index) {a v : Nat}
    (ha : Varint.Fits a v) (hv : Varint.lengthOf a v = payload.length)
    (hholds : img.Holds n (t.cellStart img i) (Varint.encodeIn a v))
    (h : Spread img .index n (t.cellStart img i + a) payload kept pages) :
    ofLeaf img t i = img.cell n (t.cellStart img i + a) 0 payload kept := by
  have hlimit := h.limit
  have hsize := hholds.octetsAt_pageOf hp h.isPage.pos
  rw [Varint.length_encodeIn ha.pos] at hsize
  have hlength : Varint.decodeLength (octetsAt (img.pageOf n).octets (t.cellStart img i) 9) = (payload.length, a) := by
    rw [Varint.decodeLength_octetsAt ha (by omega) hsize ha.le, hv]
  unfold ofLeaf
  simp only [hpage, hkind, hlength, h.kept_eq]
  rfl

end Cell

namespace PayloadCell

variable {img : Image} {kind : TreeKind} {n i : Nat} {rowid : Int} {payload : List UInt8} {kept start : Nat}

theorem spread (h : PayloadCell img n i kind rowid payload kept start) :
    ∃ pages, Spread img kind n start payload kept pages := by
  cases h with
  | table _ _ _ _ _ _ hspread => exact ⟨_, hspread⟩
  | index _ _ _ hspread => exact ⟨_, hspread⟩

/-- A cell ends in front of the reserved octets of its page. -/
theorem start_lt (h : PayloadCell img n i kind rowid payload kept start) : i < img.usable := by
  cases h with
  | table ha _ _ _ hb hholds _ =>
    have hwithin := hholds.within
    have hpos := ha.pos
    rw [List.length_append, Varint.length_encodeIn hpos, Varint.length_encodeIn hb.pos] at hwithin
    omega
  | index ha _ hholds _ =>
    have hwithin := hholds.within
    have hpos := ha.pos
    rw [Varint.length_encodeIn hpos] at hwithin
    omega

/-- What a cell holds is read from it. -/
theorem ofLeaf_eq {t : TreePage} (hp : img.Proper) (hpage : t.page = img.pageOf n) (hkind : t.kind = kind)
    (h : PayloadCell img n (t.cellStart img i) kind rowid payload kept start) :
    Cell.ofLeaf img t i = img.cell n start rowid payload kept := by
  cases h with
  | table ha hsmall hlow hhigh hb hholds hspread =>
    have hv := Varint.lengthOf_eq (hsmall.imp_left Nat.lt_succ_of_le)
    exact Cell.ofLeaf_table hp hpage hkind ha hv hlow hhigh hb hholds hspread
  | index ha hsmall hholds hspread =>
    have hv := Varint.lengthOf_eq (hsmall.imp_left Nat.lt_succ_of_le)
    exact Cell.ofLeaf_index hp hpage hkind ha hv hholds hspread

end PayloadCell

end FirstRow.Store
