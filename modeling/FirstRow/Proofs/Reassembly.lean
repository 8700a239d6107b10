import FirstRow.Proofs.Columns
import FirstRow.Proofs.Text.Utf16

/-!
# Payloads put together again

A payload that its page has no room for stands in a chain of overflow pages as well. `localSize` is the rule by which a
page keeps its part, over the integers: none of its differences is below zero. What is fetched is decoded from exactly
the payload, wherever the pages of the chain lie, with one exception: of a long UTF-16 text of a table that is not all
on its page a byte-order mark is dropped.
-/
namespace FirstRow

open FirstRow.Sql FirstRow.Store

namespace Store

/-! ## The rule for local sizes -/

/-- The least number of octets that a page keeps of a payload that goes on elsewhere, over the integers. -/
def localLeast (usable : ℤ) : ℤ :=
  (usable - 12) * 32 / 255 - 23

/-- The greatest number of octets of a payload on a leaf, over the integers. -/
def localMost (usable : ℤ) : TreeKind → ℤ
  | .table => usable - 35
  | .index => (usable - 12) * 64 / 255 - 23

/-- How many octets of a payload stay on its page, over the integers. -/
def localSize (usable : ℤ) (kind : TreeKind) (size : ℤ) : ℤ :=
  let fitting := localLeast usable + (size - localLeast usable) % (usable - 4)
  if size ≤ localMost usable kind then size
  else if fitting ≤ localMost usable kind then fitting else localLeast usable

/-- No difference in the rule for local sizes is below zero; that of the size and the least is only taken of a payload
that goes on elsewhere. -/
structure Differences (usable : ℤ) (kind : TreeKind) (size : ℤ) : Prop where
  usable_four : 0 ≤ usable - 4
  usable_twelve : 0 ≤ usable - 12
  usable_thirtyFive : 0 ≤ usable - 35
  least : 0 ≤ (usable - 12) * 32 / 255 - 23
  most : 0 ≤ (usable - 12) * 64 / 255 - 23
  size_least : localMost usable kind < size → 0 ≤ size - localLeast usable

section

variable {usable : Nat} (hu : 480 ≤ usable)
include hu

theorem leastKept_eq : (leastKept usable : ℤ) = localLeast usable := by
  unfold leastKept localLeast
  omega

theorem mostKept_eq (kind : TreeKind) : (mostKept usable kind : ℤ) = localMost usable kind := by
  cases kind <;> simp only [mostKept, localMost] <;> omega

theorem leastKept_le_mostKept (kind : TreeKind) : leastKept usable ≤ mostKept usable kind := by
  cases kind <;> simp only [leastKept, mostKept] <;> omega

theorem differences (kind : TreeKind) (size : Nat) : Differences usable kind size where
  usable_four := by omega
  usable_twelve := by omega
  usable_thirtyFive := by omega
  least := by omega
  most := by omega
  size_least hmost := by
    have hle := leastKept_le_mostKept hu kind
    rw [← mostKept_eq hu] at hmost
    rw [← leastKept_eq hu]
    omega

/-- What the rule says over the natural numbers is what it says over the integers. -/
theorem keptOnPage_eq (kind : TreeKind) (size : Nat) :
    (keptOnPage usable (leastKept usable) (mostKept usable kind) size : ℤ) = localSize usable kind size := by
  have hleast := leastKept_eq hu
  have hmost := mostKept_eq hu kind
  have hle := leastKept_le_mostKept hu kind
  unfold keptOnPage localSize
  rw [← hleast, ← hmost]
  by_cases hall : size ≤ mostKept usable kind
  · rw [if_pos hall]
    exact (if_pos (by omega)).symm
  · have hfitting : ((leastKept usable + (size - leastKept usable) % (usable - 4) : Nat) : ℤ) =
        leastKept usable + (size - leastKept usable) % (usable - 4) := by
      rw [Nat.cast_add, Int.natCast_mod, Nat.cast_sub (by omega), Nat.cast_sub (by omega)]
      rfl
    rw [if_neg hall]
    simp only [← hfitting, Nat.cast_le]
    rw [if_neg hall]
    split <;> rfl

end

/-! ## Where the mark does not count -/

/-- Without UTF-16, in an index and in a short payload it does not matter how much of the payload its page keeps. -/
theorem Record.textIn_eq {e : Encoding} {kind : TreeKind} {f : Field}
    (h : e = .utf8 ∨ kind = .index ∨ serialSize f.serialType ≤ 4000) (kept : Nat) : textIn e kind kept f = e.toUtf8 := by
  unfold textIn
  split
  · next hlong =>
    rcases h with rfl | rfl | hshort
    · rfl
    · cases hlong.1
    · omega
  · rfl

theorem Scan.rowIn_congr {e : Encoding} {s : Scan} {payload : List UInt8}
    (h : e = .utf8 ∨ s.kind = .index ∨ payload.length ≤ 4000) (t : Table) (rowid : Int) (kept kept' : Nat) :
    s.rowIn e t rowid payload kept = s.rowIn e t rowid payload kept' := by
  unfold rowIn
  cases hlayout : Record.layoutIn payload s.fieldCount with
  | error err => rfl
  | ok layout =>
    rw [Chain.ok_bind, Chain.ok_bind]
    congr 1
    funext (column, source)
    cases source with
    | rowid => rfl
    | computed => rfl
    | field p =>
      simp only
      cases hfield : layout.field? p with
      | error err => rfl
      | ok field =>
        cases field with
        | none => rfl
        | some f =>
          have hwithin := Record.layoutIn_within hlayout hfield
          have htext := Record.textIn_eq (h.imp_right (Or.imp_right fun hshort => show serialSize f.serialType ≤ 4000
            by omega))
          simp only [Chain.ok_bind, Record.valueIn, htext]

/-- The first row is read from the payload of its cell. -/
theorem Scan.firstRow?_eq {img : Image} (hp : img.Proper) (hm : img.isMapped = true → img.Mapped) {t : Table} {s : Scan}
    (hscan : ofTable t = .ok s) {levels m : Nat} (hedge : LeftEdge img s.kind levels s.root m)
    (hlevels : levels ≤ Walk.maxDescents) {rowid : Int} {payload : List UInt8} {kept start : Nat}
    (hcell : PayloadCell img m (img.cellAt m true 0) s.kind rowid payload kept start)
    (hends : (Varint.decode payload).2 ≤ payload.length) :
    firstRow? img t = some <$> s.rowIn img.encoding t rowid payload kept := by
  have husable := hp.usable_le
  have hlt := hcell.start_lt
  obtain ⟨count, hnode, hpos, hfirst⟩ := Walk.first?_eq hp hedge hlevels
  obtain ⟨pages, hspread⟩ := hcell.spread
  rw [← hnode.cellStart_eq hp hpos (by omega)] at hcell
  have hat := hcell.ofLeaf_eq hp rfl rfl
  unfold firstRow?
  rw [hscan, Chain.ok_bind, hfirst, Chain.ok_bind]
  simp only [hat, (row_yields hspread hp hm hends t rowid).run']

end Store

/-- What is served of the values of a first row, or of the failure to read them. -/
def Fetch.ofValues : Except Store.Error (List Datum) → Except Failure (Option Row)
  | .error e => .error (.database (.store e))
  | .ok ds => some <$> row ds

/-- What is fetched is decoded from exactly the payload of the first row's cell: the octets that its page keeps by the
rule for local sizes, and those of its chain. The length of the record's header must end inside the payload. How much
the page keeps is of no matter without UTF-16, in an index, and in a payload of up to 4000 octets. -/
theorem fetch_reassembled {d : Disk} {workingDirectory : AbsolutePath} {path : String} {img : Image} {t : Sql.Table}
    (h : Serves d workingDirectory path img t) {s : Scan} (hscan : Scan.ofTable t = .ok s) {levels m : Nat}
    (hedge : LeftEdge img s.kind levels s.root m) (hlevels : levels ≤ Walk.maxDescents) {rowid : Int}
    {payload : List UInt8} {kept start : Nat}
    (hcell : PayloadCell img m (img.cellAt m true 0) s.kind rowid payload kept start)
    (hends : (Varint.decode payload).2 ≤ payload.length) :
    fetch d workingDirectory path = Fetch.ofValues (s.rowIn img.encoding t rowid payload kept) ∧
      (img.encoding = .utf8 ∨ s.kind = .index ∨ payload.length ≤ 4000 →
        ∀ kept', s.rowIn img.encoding t rowid payload kept = s.rowIn img.encoding t rowid payload kept') ∧
      Differences img.usable s.kind payload.length ∧
      (kept : ℤ) = localSize img.usable s.kind payload.length ∧
      kept + (payload.drop kept).length = payload.length := by
  have hp := h.proper
  obtain ⟨pages, hspread⟩ := hcell.spread
  have hkept := hspread.kept_le hp
  refine ⟨?_, fun hplain kept' => Scan.rowIn_congr hplain t rowid kept kept', differences hp.usable_ge _ _, ?_, ?_⟩
  · have hfirst := Scan.firstRow?_eq hp h.mapped hscan hedge hlevels hcell hends
    cases hvalues : s.rowIn img.encoding t rowid payload kept with
    | error e =>
      rw [hvalues] at hfirst
      exact h.fetch_of_error hfirst
    | ok ds =>
      rw [hvalues] at hfirst
      exact h.fetch_of_some hfirst
  · rw [← keptOnPage_eq hp.usable_ge, hspread.kept_eq]
  · rw [List.length_drop]
    omega

/-! ## A text with a byte-order mark -/

namespace Marked

def declaration : Entry :=
  let text := Small.textIn (.utf16 .bigEndian)
  Small.entry 1 [text "table", text "test", text "test", ⟨1, 1, [2]⟩, text "CREATE TABLE test(a,b)"]

/-- A text of 2001 characters, the first one of which is a byte-order mark. -/
def text : List Char := '\uFEFF' :: List.replicate 2000 'a'

def row : Entry := ⟨1, [⟨8017, 2, Text.Utf16.encode .bigEndian text⟩, ⟨8, 1, []⟩], 1, 450⟩

/-- The cell of the row, which refers to the first page of its chain. -/
def cell : List UInt8 :=
  Varint.encodeIn 2 row.payload.length ++ Varint.encodeIn 1 1 ++ row.payload.take row.kept ++ [0, 0, 0, 3]

/-- The `k`th page of the chain. -/
def overflow (k : Nat) : List UInt8 :=
  [0, 0, 0, if k = 6 then 0 else k.toUInt8 + 4] ++ (row.payload.drop (row.kept + 508 * k)).take 508

def octets : List UInt8 :=
  Small.leaf (Small.headerIn (.utf16 .bigEndian) 9) .table [declaration] ++ Small.single .table cell ++
    (List.range 7).flatMap overflow

def img : Image := Small.imageIn (.utf16 .bigEndian) octets 9

def catalog : Catalog :=
  ((Catalog.Sum.initial img).catalog.add img (declaration.description img)).1

/-- The payload of the row has a header of four octets and a text of 4002. -/
theorem row_spec : row.IsRecord ∧ row.payload.length = 4006 ∧ row.offset 0 = 4 ∧
    (Text.Utf16.encode .bigEndian text).length = 4002 := by
  decide +kernel

/-- The file has a leaf with the schema, one with the row, and the chain of the row. -/
theorem file_spec : octets.length = 9 * 512 ∧ Small.HasEntries octets 1 .table [declaration] ∧
    Small.HasCells octets 2 .table [cell] ∧ Small.HasChain octets row 7 := by
  decide +kernel

theorem schema : Leaf img .table 1 [declaration] :=
  file_spec.2.1.leaf file_spec.1 (by decide)

theorem isRecord : row.IsRecord := row_spec.1

theorem rowPage : Store.Node img .table 2 true 1 ∧ img.Holds 2 (img.cellAt 2 true 0) cell :=
  file_spec.2.2.1.holds_single file_spec.1 (by decide)

theorem chained : Chained img (List.range' 3 7) (row.payload.drop row.kept) :=
  file_spec.2.2.2.chained file_spec.1 (by decide) (by decide)

/-- The payload of the row is spread over eight pages. -/
theorem leafCell : LeafCell img 2 (img.cellAt 2 true 0) .table row := by
  obtain ⟨-, hlength, -⟩ := row_spec
  have hkept : Keeps 512 39 477 row.payload.length row.kept := by
    rw [hlength]
    exact .fitting (by decide) (by decide)
  refine Small.leafCell_spread (by decide) ?_ (by decide) (by decide) (by decide) hkept ?_ (by decide) chained rowPage.2
  · rw [hlength]
    decide
  · rw [hlength]
    decide

theorem catalog_spec : ((Catalog.Sum.initial img).catalog.add img (declaration.description img)).2 = none ∧
    ((catalog.relation? servedName).bind Relation.table?).map (fun t =>
      (t.root, t.withoutRowid, t.rowidColumn, t.columns.map fun c => (c.isStored, c.type.affinity))) =
      some (2, false, none, [(true, .blob), (true, .blob)]) := by
  decide +kernel

theorem database : Database img.content img [declaration] catalog where
  header := Small.fileHeader (by decide) (by decide) file_spec.1 (by decide)
  mapped h := by cases h
  schema := ⟨0, by decide, schema⟩
  catalog := .cons (Prod.ext rfl catalog_spec.1) .nil

def scan : Scan := ⟨.table, 2, [.field 0, .field 1]⟩

/-- The table is served through its own tree, at the second page. -/
theorem serves : ∃ t, Serves (Small.disk img) [] "/t" img t ∧ Scan.ofTable t = .ok scan ∧
    ∃ c c', t.columns = [c, c'] ∧ c.type.affinity = .blob ∧ c'.type.affinity = .blob := by
  obtain ⟨t, ht, hspec⟩ := Catalog.exists_table catalog_spec.2
  simp only [Prod.mk.injEq] at hspec
  obtain ⟨hroot, hrows, hrowid, hcolumns⟩ := hspec
  obtain ⟨c, c', hpair⟩ : ∃ c c', t.columns = [c, c'] :=
    List.length_eq_two.mp (by simpa using congrArg List.length hcolumns)
  simp only [hpair, List.map_cons, List.map_nil, List.cons.injEq, Prod.mk.injEq, and_true] at hcolumns
  refine ⟨t, database.serves Small.path_nul (Small.leads rfl) ht, ?_, c, c', hpair, hcolumns.1.2, hcolumns.2.2⟩
  simp [Scan.ofTable, hrows, hroot, hrowid, hpair, Scan.rowidSources, hcolumns.1.1, hcolumns.2.1, scan]

/-- A mark at the head of the text is dropped by one reader, and kept by the other. -/
theorem toUtf8WithMark_encode (s : List Char) :
    (Encoding.utf16 .bigEndian).toUtf8WithMark (Text.Utf16.encode .bigEndian ('\uFEFF' :: s)) = Text.Utf8.encode s :=
  Text.Utf16.toUtf8_encode .bigEndian s

/-- The values of the row, where a page keeps so much of its payload. -/
theorem rowIn_eq {t : Sql.Table} {c c' : Column} (hpair : t.columns = [c, c']) (hc : c.type.affinity = .blob)
    (hc' : c'.type.affinity = .blob) (kept : Nat) :
    scan.rowIn img.encoding t 1 row.payload kept =
      .ok [.text (Text.Utf8.encode (if kept < 4006 then List.replicate 2000 'a' else text)), .integer 0] := by
  let x : Entry := { row with kept }
  have hrecord : x.IsRecord := ⟨isRecord.1, isRecord.2, isRecord.3, isRecord.4, isRecord.5, isRecord.6⟩
  have hoffset : x.offset 0 = 4 := row_spec.2.2.1
  have hsize := row_spec.2.2.2
  have hserial (asText : List UInt8 → List UInt8) (bs : List UInt8) : Datum.ofSerial asText 8017 bs = .text (asText bs) :=
    rfl
  have htext : x.textOf img .table 0 4002 (Text.Utf16.encode .bigEndian text) =
      Text.Utf8.encode (if kept < 4006 then List.replicate 2000 'a' else text) := by
    unfold Entry.textOf
    rw [hoffset]
    by_cases hkept : kept < 4006
    · rw [if_pos ⟨rfl, by decide, hkept⟩, if_pos hkept]
      exact toUtf8WithMark_encode _
    · rw [if_neg (fun h => hkept h.2.2), if_neg hkept]
      exact Text.Utf16.toUtf8_encode .bigEndian text
  have hid : x.value? img .table 0 =
      some (.text (Text.Utf8.encode (if kept < 4006 then List.replicate 2000 'a' else text))) := by
    simp only [Entry.value?, x, row, List.getElem?_cons_zero, Option.map_some, hserial, hsize]
    exact congrArg (some <| Datum.text ·) htext
  have hdata : x.value? img .table 1 = some (.integer 0) := rfl
  have hrow : scan.rowIn img.encoding t 1 row.payload kept = _ := Scan.rowIn_eq hrecord t scan
  rw [hrow, hpair]
  simp only [scan, List.zip_cons_cons, List.zip_nil_left, List.map_cons, List.map_nil, Entry.sourceAt, Entry.columnAt,
    hid, hdata, Option.getD_some, hc, hc', Affinity.onRead]

end Marked

/-- A row of 4006 octets is put together from 450 of them on a page of 512, and the rest in a chain. -/
theorem fetch_reassembled_marked : ∃ t, Scan.ofTable t = .ok Marked.scan ∧
    fetch (Small.disk Marked.img) [] "/t" =
      Fetch.ofValues (Marked.scan.rowIn Marked.img.encoding t 1 Marked.row.payload 450) ∧
    localSize 512 .table 4006 = 450 := by
  obtain ⟨t, hserves, hscan, -⟩ := Marked.serves
  obtain ⟨start, hcell⟩ := Marked.leafCell.payloadCell
  obtain ⟨hfetch, -, -, hsize, -⟩ := fetch_reassembled hserves hscan
    (show LeftEdge Marked.img .table 0 Marked.scan.root 2 from .leaf Marked.rowPage.1 Nat.one_pos) (Nat.zero_le _)
    hcell (Entry.decode_payload_le Marked.isRecord.header)
  have hlength := Marked.row_spec.2.1
  rw [hlength] at hsize
  exact ⟨t, hscan, hfetch, hsize.symm⟩

/-- Not all of the payload counts: of a text that begins with a byte-order mark and that its page does not hold in full
the mark is not served, while the payload itself has it. -/
theorem mark_not_fetched : ∃ t, Serves (Small.disk Marked.img) [] "/t" Marked.img t ∧
    Scan.ofTable t = .ok Marked.scan ∧ LeftEdge Marked.img .table 0 Marked.scan.root 2 ∧
    (∃ start, PayloadCell Marked.img 2 (Marked.img.cellAt 2 true 0) .table 1 Marked.row.payload 450 start) ∧
    Fetch.ofValues (Marked.scan.rowIn Marked.img.encoding t 1 Marked.row.payload Marked.row.payload.length) =
      .ok (some ⟨.string (String.ofList ('\uFEFF' :: List.replicate 2000 'a')), .integer 0⟩) ∧
    fetch (Small.disk Marked.img) [] "/t" =
      .ok (some ⟨.string (String.ofList (List.replicate 2000 'a')), .integer 0⟩) := by
  obtain ⟨t, hserves, hscan, c, c', hpair, hc, hc'⟩ := Marked.serves
  have hlength := Marked.row_spec.2.1
  have hedge : LeftEdge Marked.img .table 0 Marked.scan.root 2 := .leaf Marked.rowPage.1 Nat.one_pos
  obtain ⟨start, hcell⟩ := Marked.leafCell.payloadCell
  have hfirst : Scan.firstRow? Marked.img t =
      some <$> Marked.scan.rowIn Marked.img.encoding t 1 Marked.row.payload 450 :=
    Scan.firstRow?_eq hserves.proper hserves.mapped hscan hedge (Nat.zero_le _) hcell
      (Entry.decode_payload_le Marked.isRecord.header)
  rw [Marked.rowIn_eq hpair hc hc'] at hfirst
  refine ⟨t, hserves, hscan, hedge, ⟨start, hcell⟩, ?_, ?_⟩
  · rw [Marked.rowIn_eq hpair hc hc', hlength]
    exact congrArg (some <$> ·) (Fetch.Served.row_eq (.both (.text Marked.text) (.integer 0)))
  · rw [hserves.fetch_of_some hfirst]
    exact congrArg (some <$> ·) (Fetch.Served.row_eq (.both (.text (List.replicate 2000 'a')) (.integer 0)))

end FirstRow
