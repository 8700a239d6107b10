import FirstRow.Fetch
import FirstRow.Proofs.Store.Catalog
import FirstRow.Proofs.Store.Decoding

/-!
# Which pages are looked at

Reading is `Confined` to some pages of an image if another content in which those pages are the same gives the same
result: no other octet of the file is looked at. All that is read of a store is confined to its pages, and those lie in
the file. What is read of the chain of a cell is confined to as many pages as the rest of its payload takes, and to maps
of pages beside them, whatever the chain looks like; a cyclic one makes no difference.
-/
namespace FirstRow.Store

variable {α β : Type} {img : Image} {content : ByteArray}

/-- The measures of an image with another content. -/
def Image.holding (img : Image) (content : ByteArray) : Image :=
  { img with content }

/-- What is read of an image depends on its measures and on some of its pages, and on nothing else. -/
def Confined (img : Image) (pages : Nat → Prop) (read : Image → α) : Prop :=
  ∀ content, (∀ n, pages n → (img.holding content).page n = img.page n) → read (img.holding content) = read img

namespace Confined

variable {pages : Nat → Prop} {read : Image → α}

theorem mono {more : Nat → Prop} (h : Confined img pages read) (hmore : ∀ n, pages n → more n) :
    Confined img more read :=
  fun content hsame => h content fun n hn => hsame n (hmore n hn)

theorem page {n : Nat} (hn : pages n) : Confined img pages fun img => img.page n :=
  fun _ hsame => hsame n hn

/-- What is read next may depend on what was read first. -/
theorem bind {first : Image → Except Error α} {next : Image → α → Except Error β} (hfirst : Confined img pages first)
    (hnext : ∀ a, Confined img pages (next · a)) : Confined img pages fun img => first img >>= next img := by
  intro content hsame
  dsimp only
  rw [hfirst content hsame]
  cases first img with
  | error e => rfl
  | ok a => exact hnext a content hsame

end Confined

/-! ## All of a store -/

section

variable (hsame : ∀ n, (img.holding content).page n = img.page n)
include hsame

theorem PointerMap.next_holding (n : Nat) : next (img.holding content) n = next img n := by
  have hcontinues (m previous : Nat) : continues (img.holding content) m previous = continues img m previous := by
    unfold continues
    rw [hsame]
    rfl
  simp only [next, hsame, hcontinues]
  rfl

theorem Chain.follow_holding (n i page offset amount : Nat) :
    follow (img.holding content) n i page offset amount = follow img n i page offset amount := by
  induction n generalizing i page offset amount with
  | zero => rfl
  | succ n ih =>
    unfold follow
    simp only [ih, hsame, PointerMap.next_holding hsame]
    rfl

theorem Chain.read_holding (first offset amount : Nat) :
    read (img.holding content) first offset amount = read img first offset amount := by
  simp only [read, follow_holding hsame]
  rfl

theorem TreePage.load_holding (n : Nat) : load (img.holding content) n = load img n := by
  simp only [load, hsame]
  rfl

theorem Cell.read_holding (c : Cell) (offset length : Nat) :
    c.read (img.holding content) offset length = c.read img offset length := by
  simp only [read, Chain.read_holding hsame]
  rfl

theorem Record.layout_holding (c : Cell) (count : Nat) :
    layout (img.holding content) c count = layout img c count := by
  simp only [layout, Cell.read_holding hsame]
  rfl

theorem Record.value_holding (kind : TreeKind) (c : Cell) (f : Field) :
    value (img.holding content) kind c f = value img kind c f := by
  simp only [value, Cell.read_holding hsame]
  rfl

omit hsame in
theorem Cell.ofLeaf_holding (t : TreePage) : ofLeaf (img.holding content) t = ofLeaf img t := by
  funext i
  have husable : (img.holding content).usable = img.usable := rfl
  have hstart : t.cellStart (img.holding content) i = t.cellStart img i := rfl
  simp only [ofLeaf, husable, hstart]

omit hsame in
theorem TreePage.children_holding (t : TreePage) : t.children (img.holding content) = t.children img := rfl

theorem Walk.child_holding (kind : TreeKind) (n : Nat) : child (img.holding content) kind n = child img kind n := by
  simp only [child, TreePage.load_holding hsame]

theorem Walk.root_holding (kind : TreeKind) (n : Nat) : root (img.holding content) kind n = root img kind n := by
  simp only [root, TreePage.load_holding hsame]

theorem Walk.leftmost_holding (levels : Nat) (t : TreePage) :
    leftmost (img.holding content) levels t = leftmost img levels t := by
  induction levels generalizing t with
  | zero => rfl
  | succ levels ih =>
    simp only [leftmost, child_holding hsame, ih]
    rfl

theorem Walk.first?_holding (kind : TreeKind) (n : Nat) : first? (img.holding content) kind n = first? img kind n := by
  simp only [first?, root_holding hsame, leftmost_holding hsame, Cell.ofLeaf_holding]

theorem Walk.below_holding (levels : Nat) (t : TreePage) :
    below (img.holding content) levels t = below img levels t := by
  induction levels generalizing t with
  | zero => simp only [below, Cell.ofLeaf_holding]
  | succ levels ih => simp only [below, child_holding hsame, Cell.ofLeaf_holding, TreePage.children_holding, ih]

theorem Walk.schema_holding : schema (img.holding content) = schema img := by
  simp only [schema, root_holding hsame, below_holding hsame]
  rfl

theorem Catalog.addCell_holding (sum : Catalog.Sum) (c : Cell) :
    sum.addCell (img.holding content) c = sum.addCell img c := by
  have hentry : SchemaEntry.ofCell (img.holding content) c = SchemaEntry.ofCell img c := by
    simp only [SchemaEntry.ofCell, Record.layout_holding hsame, Record.value_holding hsame]
    rfl
  simp only [Sum.addCell, hentry]
  rfl

theorem Catalog.ofImage_holding : ofImage (img.holding content) = ofImage img := by
  have hcells : Sum.addCell (img.holding content) = Sum.addCell img := by
    funext sum c
    exact addCell_holding hsame sum c
  simp only [ofImage, Walk.schema_holding hsame, hcells]
  rfl

theorem Scan.firstRow?_holding (t : Sql.Table) : firstRow? (img.holding content) t = firstRow? img t := by
  have hrow (s : Scan) (c : Cell) : row (img.holding content) t s c = row img t s c := by
    have hvalue (layout : Record.Layout) (column : Sql.Column) (source : Source) :
        value (img.holding content) s c layout column source = value img s c layout column source := by
      cases source with
      | field p => simp only [value, Record.value_holding hsame]; rfl
      | _ => rfl
    simp only [row, Record.layout_holding hsame, hvalue]
  simp only [firstRow?, Walk.first?_holding hsame, hrow]

end

/-- All that is fetched from a store stands in its pages. -/
theorem fetch_confined (img : Image) : Confined img (fun _ => True) Fetch.ofImage := by
  intro content hsame
  have hsame := fun n => hsame n trivial
  simp only [Fetch.ofImage, Fetch.values?, Catalog.ofImage_holding hsame, Scan.firstRow?_holding hsame]

/-! ## Chains -/

/-- Reading goes along at most so many pages of a chain. To pass a page over, it may look at one map instead. -/
def Follows (img : Image) (limit : Nat) (read : Image → α) : Prop :=
  ∃ chain maps : List Nat, chain.length ≤ limit ∧ maps.length ≤ limit ∧
    (∀ m ∈ maps, ∃ n, m = PointerMap.mapOf img n) ∧ Confined img (fun n => n ∈ chain ∨ n ∈ maps) read

namespace Follows

variable {limit : Nat} {read : Image → α}

/-- What only looks at the measures. -/
theorem measures (h : ∀ content, read (img.holding content) = read img) : Follows img limit read :=
  ⟨[], [], Nat.zero_le _, Nat.zero_le _, nofun, fun content _ => h content⟩

theorem mono {more : Nat} (h : Follows img limit read) (hle : limit ≤ more) : Follows img more read := by
  obtain ⟨chain, maps, hchain, hmaps, hmap, hread⟩ := h
  exact ⟨chain, maps, Nat.le_trans hchain hle, Nat.le_trans hmaps hle, hmap, hread⟩

theorem congr {other : Image → α} (h : Follows img limit read)
    (heq : ∀ content, other (img.holding content) = read (img.holding content)) : Follows img limit other := by
  obtain ⟨chain, maps, hchain, hmaps, hmap, hread⟩ := h
  refine ⟨chain, maps, hchain, hmaps, hmap, fun content hsame => ?_⟩
  rw [heq, hread content hsame]
  exact (heq img.content).symm

theorem ite {p : Prop} [Decidable p] {yes no : Image → α} (hyes : p → Follows img limit yes)
    (hno : ¬p → Follows img limit no) : Follows img limit fun img => if p then yes img else no img := by
  by_cases hp : p
  · simpa only [if_pos hp] using hyes hp
  · simpa only [if_neg hp] using hno hp

/-- A result that is made into another one. -/
theorem map {read : Image → Except Error α} (h : Follows img limit read) (f : α → Except Error β) :
    Follows img limit fun img => read img >>= f := by
  obtain ⟨chain, maps, hchain, hmaps, hmap, hread⟩ := h
  refine ⟨chain, maps, hchain, hmaps, hmap, fun content hsame => ?_⟩
  dsimp only
  rw [hread content hsame]

/-- One page is looked at, or the map of one page, and then what the result asks for. -/
theorem step {first : Image → Except Error α} {next : Image → α → Except Error β} (page mapped : Nat)
    (hfirst : Confined img (fun n => n = page ∨ n = PointerMap.mapOf img mapped) first)
    (hnext : ∀ a, Follows img limit (next · a)) : Follows img (limit + 1) fun img => first img >>= next img := by
  cases hresult : first img with
  | error e =>
    refine ⟨[page], [PointerMap.mapOf img mapped], by simp, by simp, ?_, fun content hsame => ?_⟩
    · exact List.forall_mem_singleton.mpr ⟨mapped, rfl⟩
    · have heq := hfirst content fun n hn => hsame n (by simpa using hn)
      dsimp only
      rw [heq, hresult]
      rfl
  | ok a =>
    obtain ⟨chain, maps, hchain, hmaps, hmap, hread⟩ := hnext a
    refine ⟨page :: chain, PointerMap.mapOf img mapped :: maps, by simpa using hchain, by simpa using hmaps, ?_,
      fun content hsame => ?_⟩
    · exact List.forall_mem_cons.mpr ⟨⟨mapped, rfl⟩, hmap⟩
    · have heq := hfirst content fun n hn => hsame n (hn.imp (List.mem_cons.mpr ∘ .inl) (List.mem_cons.mpr ∘ .inl))
      have hrest := hread content fun n hn => hsame n (hn.imp (List.mem_cons_of_mem page) (List.mem_cons_of_mem _))
      dsimp only
      rw [heq, hresult]
      exact hrest

end Follows

namespace Chain

/-- Going along a chain from a page on, with the pages that are known. -/
theorem follow_run (img : Image) (n i page offset amount : Nat) (known : Chain) :
    (follow img (n + 1) i page offset amount).run known =
      if page = 0 || img.pageCount < page then .error .malformed
      else if perPage img ≤ offset then
        (match (known.note i page)[i + 1]? with
          | some p => .ok p
          | none => PointerMap.next img page) >>= fun next =>
            (follow img n (i + 1) next (offset - perPage img) amount).run (known.note i page)
      else
        img.page page >>= fun p =>
          let here := min amount (perPage img - offset)
          let head := octetsAt p.octets (4 + offset) here
          if here = amount then .ok (head, known.note i page)
          else (follow img n (i + 1) (numberAt p.octets 0 4) 0 (amount - here)).run (known.note i page) >>=
            fun r => .ok (head ++ r.1, r.2) := by
  by_cases hstep : (page = 0 || decide (img.pageCount < page)) = true
  · simp only [follow, hstep, if_true, StateT.run_bind]
    rfl
  · simp only [follow, hstep, if_false, Bool.false_eq_true, pure_bind, StateT.run_bind, StateT.run_modify]
    by_cases hskip : perPage img ≤ offset
    · simp only [if_pos hskip, StateT.run_bind, StateT.run_get, pure_bind]
      cases (known.note i page)[i + 1]? with
      | some p => rfl
      | none =>
        cases PointerMap.next img page with
        | error e => rfl
        | ok p => rfl
    · simp only [if_neg hskip, StateT.run_bind]
      cases img.page page with
      | error e => rfl
      | ok p =>
        simp only [liftM, StateT.run_monadLift, monadLift_self, ok_bind, pure_bind]
        split
        · rfl
        · rfl

/-- Passing a page over takes a look at one map, or at the page itself. -/
theorem next_confined (img : Image) (n : Nat) :
    Confined img (fun m => m = n ∨ m = PointerMap.mapOf img (PointerMap.successor img n)) (PointerMap.next · n) := by
  intro content hsame
  have hcontinues : PointerMap.continues (img.holding content) (PointerMap.successor img n) n =
      PointerMap.continues img (PointerMap.successor img n) n := by
    have hmap : (img.holding content).page (PointerMap.mapOf img (PointerMap.successor img n)) = _ :=
      hsame _ (.inr rfl)
    unfold PointerMap.continues
    rw [← hmap]
    rfl
  have hsuccessor : PointerMap.successor (img.holding content) n = PointerMap.successor img n := rfl
  simp only [PointerMap.next, hsame n (.inl rfl), hsuccessor, hcontinues]
  rfl

/-- A chain is gone along for no more pages than are asked for, whatever they refer to. -/
theorem follow_follows (img : Image) (n i page offset amount : Nat) (known : Chain) :
    Follows img n fun img => (follow img n i page offset amount).run known := by
  induction n generalizing i page offset amount known with
  | zero => exact .measures fun _ => rfl
  | succ n ih =>
    have hstep : Follows img (n + 1) fun other =>
        if page = 0 || img.pageCount < page then .error .malformed
        else if perPage img ≤ offset then
          (match (known.note i page)[i + 1]? with
            | some p => .ok p
            | none => PointerMap.next other page) >>= fun next =>
              (follow other n (i + 1) next (offset - perPage img) amount).run (known.note i page)
        else
          other.page page >>= fun p =>
            let here := min amount (perPage img - offset)
            let head := octetsAt p.octets (4 + offset) here
            if here = amount then .ok (head, known.note i page)
            else (follow other n (i + 1) (numberAt p.octets 0 4) 0 (amount - here)).run (known.note i page) >>=
              fun r => .ok (head ++ r.1, r.2) := by
      refine .ite (fun _ => .measures fun _ => rfl) fun _ => .ite (fun _ => ?_) fun _ => ?_
      · refine .step page (PointerMap.successor img page) ?_ fun next => ih ..
        cases (known.note i page)[i + 1]? with
        | some p => exact fun content _ => rfl
        | none => exact next_confined img page
      · refine .step page 0 (.page (.inl rfl)) fun p => ?_
        exact .ite (fun _ => .measures fun _ => rfl) fun _ => (ih ..).map _
    exact hstep.congr fun content => follow_run ..

/-- The pages that reading a part of a chain takes. -/
def pagesFor (img : Image) (amount : Nat) : Nat :=
  (amount + perPage img - 1) / perPage img

theorem read_run (img : Image) (first offset amount : Nat) (known : Chain) :
    (read img first offset amount).run known =
      match known[offset / perPage img]? with
      | some page =>
        (follow img (pagesFor img (offset + amount) - offset / perPage img) (offset / perPage img) page
          (offset - offset / perPage img * perPage img) amount).run known
      | none => (follow img (pagesFor img (offset + amount)) 0 first offset amount).run known := by
  simp only [read, StateT.run_bind, StateT.run_get, pure_bind]
  cases known[offset / perPage img]? with
  | some page => rfl
  | none => rfl

theorem read_follows (img : Image) (first offset amount : Nat) (known : Chain) :
    Follows img (pagesFor img (offset + amount)) fun img => (read img first offset amount).run known := by
  cases hget : known[offset / perPage img]? with
  | some page =>
    have hfollow := follow_follows img (pagesFor img (offset + amount) - offset / perPage img) (offset / perPage img)
      page (offset - offset / perPage img * perPage img) amount known
    refine (hfollow.mono (Nat.sub_le _ _)).congr fun content => ?_
    have hget' : known[offset / perPage (img.holding content)]? = some page := hget
    rw [read_run, hget']
    rfl
  | none =>
    refine (follow_follows img (pagesFor img (offset + amount)) 0 first offset amount known).congr fun content => ?_
    have hget' : known[offset / perPage (img.holding content)]? = none := hget
    rw [read_run, hget']
    rfl

/-- No place of a chain is remembered behind those that were asked for. -/
theorem follow_size {n i page offset amount : Nat} {known known' : Chain} {bs : List UInt8}
    (h : (follow img n i page offset amount).run known = .ok (bs, known')) :
    known'.size ≤ max known.size (i + n) := by
  induction n generalizing i page offset amount known known' bs with
  | zero =>
    cases h
    exact Nat.le_max_left _ _
  | succ n ih =>
    have hnote : (known.note i page).size ≤ max known.size (i + 1) := by
      unfold note
      split
      · rw [Array.size_set]
        exact Nat.le_max_left _ _
      · rw [Array.size_push]
        omega
    rw [follow_run] at h
    split at h
    · cases h
    split at h
    · obtain ⟨next, -, hnext⟩ := Catalog.bind_eq_ok h
      have := ih hnext
      omega
    · obtain ⟨p, -, hp⟩ := Catalog.bind_eq_ok h
      dsimp only at hp
      split at hp
      · cases hp
        omega
      · obtain ⟨⟨rest, known₁⟩, hrest, hr⟩ := Catalog.bind_eq_ok hp
        simp only [Except.ok.injEq, Prod.mk.injEq] at hr
        obtain ⟨-, rfl⟩ := hr
        have := ih hrest
        omega

theorem read_size {first offset amount : Nat} {known known' : Chain} {bs : List UInt8}
    (h : (read img first offset amount).run known = .ok (bs, known')) :
    known'.size ≤ max known.size (pagesFor img (offset + amount)) := by
  rw [read_run] at h
  split at h
  · next hget =>
    have := (Array.getElem?_eq_some_iff.mp hget).1
    have := follow_size h
    omega
  · have := follow_size h
    omega

end Chain

/-! ## Cells -/

namespace Cell

/-- How many pages of a chain the rest of a payload takes, by its length. -/
def chainPages (img : Image) (c : Cell) : Nat :=
  Chain.pagesFor img (c.size - c.kept)

variable {c : Cell} {offset length : Nat}

theorem read_run (img : Image) (c : Cell) (offset length : Nat) (known : Chain) :
    (c.read img offset length).run known =
      if img.usable < c.start + c.kept then .error .malformed
      else
        let onPage := min length (c.kept - offset)
        let head := octetsAt c.page.octets (c.start + offset) onPage
        if onPage = length then .ok (head, known)
        else
          (Chain.read img (numberAt c.page.octets (c.start + c.kept) 4) (offset - c.kept) (length - onPage)).run known >>=
            fun r => .ok (head ++ r.1, r.2) := by
  unfold read
  dsimp only
  split
  · rfl
  · split
    · rfl
    · rfl

/-- A part of a payload takes no more pages than all of the payload. -/
theorem pagesFor_le (img : Image) (hlength : offset + length ≤ c.size) :
    Chain.pagesFor img (offset - c.kept + (length - min length (c.kept - offset))) ≤ c.chainPages img := by
  refine Nat.div_le_div_right ?_
  omega

theorem read_follows (img : Image) (hlength : offset + length ≤ c.size) (known : Chain) :
    Follows img (c.chainPages img) fun img => (c.read img offset length).run known := by
  have hread : Follows img (c.chainPages img) fun other =>
      if img.usable < c.start + c.kept then .error .malformed
      else
        let onPage := min length (c.kept - offset)
        let head := octetsAt c.page.octets (c.start + offset) onPage
        if onPage = length then .ok (head, known)
        else
          (Chain.read other (numberAt c.page.octets (c.start + c.kept) 4) (offset - c.kept) (length - onPage)).run known >>=
            fun r => .ok (head ++ r.1, r.2) :=
    .ite (fun _ => .measures fun _ => rfl) fun _ => .ite (fun _ => .measures fun _ => rfl) fun _ =>
      ((Chain.read_follows ..).mono (pagesFor_le img hlength)).map _
  exact hread.congr fun content => read_run ..

theorem read_size (hlength : offset + length ≤ c.size) {known known' : Chain} {bs : List UInt8}
    (h : (c.read img offset length).run known = .ok (bs, known')) :
    known'.size ≤ max known.size (c.chainPages img) := by
  rw [read_run] at h
  split at h
  · cases h
  dsimp only at h
  split at h
  · cases h
    exact Nat.le_max_left _ _
  · obtain ⟨⟨rest, known₁⟩, hrest, hr⟩ := Catalog.bind_eq_ok h
    simp only [Except.ok.injEq, Prod.mk.injEq] at hr
    obtain ⟨-, rfl⟩ := hr
    have := Chain.read_size hrest
    have := pagesFor_le img hlength
    omega

end Cell

/-! ## Records -/

namespace Record

theorem layout_run (img : Image) (c : Cell) (count : Nat) (known : Chain) :
    (layout img c count).run known =
      if count = 0 then .ok (⟨#[], false⟩, known)
      else if img.pageSize ≤ c.start then .error .malformed
      else
        let onPage := octetsAt c.page.octets c.start (img.pageSize - c.start)
        let size := (Varint.decode32 onPage).1
        let n := (Varint.decode32 onPage).2
        if size ≤ c.available img then .ok (layoutOf onPage size n c.size count, known)
        else if maxHeader < size || c.size < size then .error .malformed
        else if size ≤ n then .ok (⟨#[], false⟩, known)
        else if img.totalSize < size then .error .malformed
        else (c.read img 0 size).run known >>= fun r => .ok (layoutOf r.1 size n c.size count, r.2) := by
  unfold layout
  dsimp only
  split_ifs <;> rfl

theorem value_run (img : Image) (kind : TreeKind) (c : Cell) (f : Field) (known : Chain) :
    (value img kind c f).run known =
      let size := serialSize f.serialType
      if f.offset + size ≤ c.available img then
        .ok (.ofSerial img.encoding.toUtf8 f.serialType (octetsAt c.page.octets (c.start + f.offset) size), known)
      else if size = 0 then .ok (.ofSerial img.encoding.toUtf8 f.serialType [], known)
      else if maxLength < size then .error .tooBig
      else if 4000 < size && kind = .table then
        (c.read img f.offset size).run known >>= fun r =>
          .ok (.ofSerial img.encoding.toUtf8WithMark f.serialType r.1, r.2)
      else if img.totalSize < f.offset + size then .error .malformed
      else (c.read img f.offset size).run known >>= fun r =>
        .ok (.ofSerial img.encoding.toUtf8 f.serialType r.1, r.2) := by
  unfold value
  dsimp only
  split_ifs <;> rfl

variable {c : Cell}

/-- The header of a record is no longer than its payload. -/
theorem layout_follows (img : Image) (c : Cell) (count : Nat) (known : Chain) :
    Follows img (c.chainPages img) fun img => (layout img c count).run known := by
  let onPage := octetsAt c.page.octets c.start (img.pageSize - c.start)
  let size := (Varint.decode32 onPage).1
  let n := (Varint.decode32 onPage).2
  have hlayout : Follows img (c.chainPages img) fun other =>
      if count = 0 then .ok (⟨#[], false⟩, known)
      else if img.pageSize ≤ c.start then .error .malformed
      else if size ≤ c.available img then .ok (layoutOf onPage size n c.size count, known)
      else if maxHeader < size || c.size < size then .error .malformed
      else if size ≤ n then .ok (⟨#[], false⟩, known)
      else if img.totalSize < size then .error .malformed
      else (c.read other 0 size).run known >>= fun r => .ok (layoutOf r.1 size n c.size count, r.2) := by
    refine .ite (fun _ => .measures fun _ => rfl) fun _ => .ite (fun _ => .measures fun _ => rfl) fun _ =>
      .ite (fun _ => .measures fun _ => rfl) fun _ => .ite (fun _ => .measures fun _ => rfl) fun hlong =>
      .ite (fun _ => .measures fun _ => rfl) fun _ => .ite (fun _ => .measures fun _ => rfl) fun _ => ?_
    have hle : 0 + size ≤ c.size := by
      simp only [Bool.or_eq_true, decide_eq_true_eq, not_or] at hlong
      omega
    exact (Cell.read_follows img hle known).map _
  exact hlayout.congr fun content => layout_run ..

theorem layout_size {count : Nat} {known known' : Chain} {l : Layout}
    (h : (layout img c count).run known = .ok (l, known')) : known'.size ≤ max known.size (c.chainPages img) := by
  rw [layout_run] at h
  dsimp only at h
  split_ifs at h with hcount hstart hhere hlong hempty htotal
  · cases h
    exact Nat.le_max_left _ _
  · cases h
    exact Nat.le_max_left _ _
  · cases h
    exact Nat.le_max_left _ _
  · obtain ⟨⟨header, known₁⟩, hread, hr⟩ := Catalog.bind_eq_ok h
    simp only [Except.ok.injEq, Prod.mk.injEq] at hr
    obtain ⟨-, rfl⟩ := hr
    refine Cell.read_size ?_ hread
    simp only [Bool.or_eq_true, decide_eq_true_eq, not_or] at hlong
    omega

/-- The fields of a record stand inside its payload. -/
theorem layout_within {count : Nat} {known known' : Chain} {l : Layout}
    (h : (layout img c count).run known = .ok (l, known')) : ∀ f ∈ l.fields, f.offset + serialSize f.serialType ≤ c.size := by
  rw [layout_run] at h
  dsimp only at h
  split_ifs at h with hcount hstart hhere hlong hnone htotal
  · cases h
    simp
  · cases h
    exact layoutOf_within
  · cases h
    simp
  · obtain ⟨⟨header, known₁⟩, -, hr⟩ := Catalog.bind_eq_ok h
    simp only [Except.ok.injEq, Prod.mk.injEq] at hr
    obtain ⟨rfl, -⟩ := hr
    exact layoutOf_within

theorem value_follows (img : Image) (kind : TreeKind) {f : Field} (hf : f.offset + serialSize f.serialType ≤ c.size)
    (known : Chain) : Follows img (c.chainPages img) fun img => (value img kind c f).run known := by
  let size := serialSize f.serialType
  have hvalue : Follows img (c.chainPages img) fun other =>
      if f.offset + size ≤ c.available img then
        .ok (Datum.ofSerial img.encoding.toUtf8 f.serialType (octetsAt c.page.octets (c.start + f.offset) size), known)
      else if size = 0 then .ok (Datum.ofSerial img.encoding.toUtf8 f.serialType [], known)
      else if maxLength < size then .error .tooBig
      else if 4000 < size && kind = .table then
        (c.read other f.offset size).run known >>= fun r =>
          .ok (Datum.ofSerial img.encoding.toUtf8WithMark f.serialType r.1, r.2)
      else if img.totalSize < f.offset + size then .error .malformed
      else (c.read other f.offset size).run known >>= fun r =>
        .ok (Datum.ofSerial img.encoding.toUtf8 f.serialType r.1, r.2) :=
    .ite (fun _ => .measures fun _ => rfl) fun _ => .ite (fun _ => .measures fun _ => rfl) fun _ =>
      .ite (fun _ => .measures fun _ => rfl) fun _ => .ite (fun _ => (Cell.read_follows img hf known).map _) fun _ =>
      .ite (fun _ => .measures fun _ => rfl) fun _ => (Cell.read_follows img hf known).map _
  exact hvalue.congr fun content => value_run ..

theorem value_size {kind : TreeKind} {f : Field} (hf : f.offset + serialSize f.serialType ≤ c.size)
    {known known' : Chain} {d : Datum} (h : (value img kind c f).run known = .ok (d, known')) :
    known'.size ≤ max known.size (c.chainPages img) := by
  have hread {bs : List UInt8} {known₁ : Chain}
      (hr : (c.read img f.offset (serialSize f.serialType)).run known = .ok (bs, known₁)) := Cell.read_size hf hr
  rw [value_run] at h
  dsimp only at h
  split_ifs at h
  · cases h
    exact Nat.le_max_left _ _
  · cases h
    exact Nat.le_max_left _ _
  · obtain ⟨⟨bs, known₁⟩, hr, heq⟩ := Catalog.bind_eq_ok h
    cases heq
    exact hread hr
  · obtain ⟨⟨bs, known₁⟩, hr, heq⟩ := Catalog.bind_eq_ok h
    cases heq
    exact hread hr

end Record

end FirstRow.Store
