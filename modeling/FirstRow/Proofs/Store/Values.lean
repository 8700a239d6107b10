import FirstRow.Proofs.Fetch
import FirstRow.Proofs.Text.Utf16

/-!
# Values read back

`Written` says of every stored value in which ways the format writes it: a serial type and the octets of the value.
Reading inverts each of them, so the cell of a record gives its values back, with the length of the payload and the
number of the row. A NaN is no value and reads as null.
-/
namespace FirstRow.Store

open FirstRow.Sql

/-! ## Numbers -/

/-- The octets of a number, most significant first. -/
def octetsOf : Nat → Nat → List UInt8
  | 0, _ => []
  | k + 1, n => octetsOf k (n / 0x100) ++ [(n % 0x100).toUInt8]

@[simp] theorem length_octetsOf (k n : Nat) : (octetsOf k n).length = k := by
  induction k generalizing n with
  | zero => rfl
  | succ k ih => simp [octetsOf, ih]

/-- A number is read back from as many octets as it needs. -/
theorem bigEndian_octetsOf {k n : Nat} (h : n < 0x100 ^ k) : bigEndian (octetsOf k n) = n := by
  induction k generalizing n with
  | zero =>
    rw [pow_zero] at h
    have hzero : n = 0 := by omega
    rw [hzero]
    rfl
  | succ k ih =>
    have hlast : (n % 0x100).toUInt8.toNat = n % 0x100 := Text.Utf8.toNat_toUInt8 (by omega)
    rw [pow_succ] at h
    rw [octetsOf, bigEndian_append_singleton, ih (by omega), hlast]
    omega

/-- The octets of an integer in two's complement, most significant first. -/
def signedOctets (k : Nat) (n : Int) : List UInt8 :=
  octetsOf k (n % 0x100 ^ k).toNat

/-- An integer is read back with its sign from as many octets as it needs. -/
theorem twosComplement_signedOctets {k : Nat} {n : Int} (hlow : -0x100 ^ k ≤ 2 * n) (hhigh : 2 * n < 0x100 ^ k) :
    twosComplement (signedOctets k n) = n := by
  have hpow : ((0x100 ^ k : Nat) : Int) = 0x100 ^ k := by norm_cast
  have hnonneg := Int.emod_nonneg n (show (0x100 ^ k : Int) ≠ 0 by positivity)
  have hlt := Int.emod_lt_of_pos n (show (0 : Int) < 0x100 ^ k by positivity)
  have hread : bigEndian (signedOctets k n) = (n % 0x100 ^ k).toNat := bigEndian_octetsOf (by omega)
  have hsize : Nat.pow 0x100 (signedOctets k n).length = 0x100 ^ k := by
    rw [signedOctets, length_octetsOf]
    rfl
  unfold twosComplement
  simp only [hread, hsize]
  by_cases hneg : n < 0
  · have hmod : n % 0x100 ^ k = n + 0x100 ^ k := by
      rw [← Int.add_emod_right]
      exact Int.emod_eq_of_lt (by omega) (by omega)
    rw [if_neg (by omega)]
    omega
  · have hmod : n % 0x100 ^ k = n := Int.emod_eq_of_lt (by omega) (by omega)
    rw [if_pos (by omega)]
    omega

/-! ## Values -/

/-- The ways in which the format writes a value: an integer in one, two, three, four, six or eight octets, zero and one
also without any, a real by its bits, a text as it is encoded and a blob as it is. How wide the serial type is does not
matter. -/
inductive Written (e : Encoding) : Datum → Content → Prop where
  | null {width : Nat} : Written e .null ⟨0, width, []⟩
  | integer {width type size : Nat} {n : Int} : (type, size) ∈ [(1, 1), (2, 2), (3, 3), (4, 4), (5, 6), (6, 8)] →
      -0x100 ^ size ≤ 2 * n → 2 * n < 0x100 ^ size → Written e (.integer n) ⟨type, width, signedOctets size n⟩
  | zero {width : Nat} : Written e (.integer 0) ⟨8, width, []⟩
  | one {width : Nat} : Written e (.integer 1) ⟨9, width, []⟩
  | real {width : Nat} (x : Binary64) : Written e (.real x) ⟨7, width, octetsOf 8 x.bits.toNat⟩
  | utf8 {width : Nat} (bs : List UInt8) : e = .utf8 → Written e (.text bs) ⟨13 + 2 * bs.length, width, bs⟩
  | utf16 {width : Nat} {order : Text.Utf16.Order} (s : List Char) : e = .utf16 order →
      Written e (.text (Text.Utf8.encode s))
        ⟨13 + 2 * (Text.Utf16.encode order s).length, width, Text.Utf16.encode order s⟩
  | blob {width : Nat} (bs : List UInt8) : Written e (.blob bs) ⟨12 + 2 * bs.length, width, bs⟩

/-- A value as it is read: a NaN is null. -/
def Datum.settled : Datum → Datum
  | .real x => if x.isNaN then .null else .real x
  | d => d

/-- The octets of a text begin with a byte-order mark, where the encoding knows one. -/
def Encoding.beginsWithMark : Encoding → List UInt8 → Prop
  | .utf8, _ => False
  | .utf16 _, bs => bs.take 2 = [0xFE, 0xFF] ∨ bs.take 2 = [0xFF, 0xFE]

theorem Encoding.toUtf8WithMark_eq {e : Encoding} {bs : List UInt8} (h : ¬e.beginsWithMark bs) :
    e.toUtf8WithMark bs = e.toUtf8 bs := by
  cases e with
  | utf8 => rfl
  | utf16 order =>
    simp only [toUtf8WithMark]
    split
    · exact absurd (.inl rfl) h
    · exact absurd (.inr rfl) h
    · rfl

theorem Datum.ofSerial_text (asText : List UInt8 → List UInt8) (n : Nat) (bs : List UInt8) :
    ofSerial asText (13 + 2 * n) bs = .text (asText bs) := by
  unfold ofSerial
  rw [if_neg (by omega), if_neg (by omega), if_neg (by omega), if_neg (by omega), if_neg (by omega), if_neg (by omega),
    if_neg (by omega)]

theorem Datum.ofSerial_blob (asText : List UInt8 → List UInt8) (n : Nat) (bs : List UInt8) :
    ofSerial asText (12 + 2 * n) bs = .blob bs := by
  unfold ofSerial
  rw [if_neg (by omega), if_neg (by omega), if_neg (by omega), if_neg (by omega), if_neg (by omega), if_neg (by omega),
    if_pos (by omega)]

namespace Written

variable {e : Encoding} {d : Datum} {c : Content}

/-- A value has as many octets as its serial type says. -/
theorem length_octets (h : Written e d c) : c.octets.length = serialSize c.serialType := by
  cases h with
  | null | zero | one => rfl
  | integer htype =>
    simp only [List.mem_cons, Prod.mk.injEq, List.not_mem_nil, or_false] at htype
    rcases htype with ⟨rfl, rfl⟩ | ⟨rfl, rfl⟩ | ⟨rfl, rfl⟩ | ⟨rfl, rfl⟩ | ⟨rfl, rfl⟩ | ⟨rfl, rfl⟩ <;>
      simp [signedOctets, serialSize]
  | real => simp [serialSize]
  | utf8 bs => simp only [serialSize]; split <;> omega
  | utf16 s => simp only [serialSize]; split <;> omega
  | blob bs => simp only [serialSize]; split <;> omega

/-- A value is read back. -/
theorem ofSerial_eq (h : Written e d c) {asText : List UInt8 → List UInt8}
    (hasText : 13 ≤ c.serialType → c.serialType % 2 = 1 → asText c.octets = e.toUtf8 c.octets) :
    Datum.ofSerial asText c.serialType c.octets = d.settled := by
  cases h with
  | null | zero | one => rfl
  | @integer width type size n htype hlow hhigh =>
    have hvalue := twosComplement_signedOctets hlow hhigh
    have hsmall : type ≠ 0 ∧ type ≤ 6 := by
      simp only [List.mem_cons, Prod.mk.injEq, List.not_mem_nil, or_false] at htype
      omega
    simp only [Datum.ofSerial, if_neg hsmall.1, if_pos hsmall.2, hvalue, Datum.settled]
  | real x =>
    have hbits : (⟨(bigEndian (octetsOf 8 x.bits.toNat)).toUInt64⟩ : Binary64) = x := by
      rw [bigEndian_octetsOf (by have := x.bits.toNat_lt; omega)]
      simp
    simp [Datum.ofSerial, Datum.settled, hbits]
  | utf8 bs he =>
    subst he
    rw [Datum.ofSerial_text, hasText (by simp) (by simp)]
    rfl
  | @utf16 _ order s he =>
    subst he
    rw [Datum.ofSerial_text, hasText (by simp) (by simp)]
    exact congrArg Datum.text (Text.Utf16.toUtf8_encode order s)
  | blob bs => rw [Datum.ofSerial_blob]; rfl

end Written

/-! ## Records -/

namespace Entry

/-- No byte-order mark is dropped: where a long text of a table is not all on its page, it does not begin with one. -/
def Unmarked (img : Image) (kind : TreeKind) (x : Entry) : Prop :=
  ∀ k c, x.contents[k]? = some c → 13 ≤ c.serialType → c.serialType % 2 = 1 → kind = .table → 4000 < c.octets.length →
    x.kept < x.offset k + c.octets.length → ¬img.encoding.beginsWithMark c.octets

variable {img : Image} {kind : TreeKind} {x : Entry} {vs : List Datum}

/-- A field gives back the value that is written in it, if no byte-order mark of it is dropped. -/
theorem value?_of_written {d : Datum} {c : Content} {k : Nat} (hc : x.contents[k]? = some c)
    (h : Written img.encoding d c)
    (hmark : 13 ≤ c.serialType → c.serialType % 2 = 1 → kind = .table → 4000 < c.octets.length →
      x.kept < x.offset k + c.octets.length → ¬img.encoding.beginsWithMark c.octets) :
    x.value? img kind k = some d.settled := by
  rw [value?, hc, Option.map_some]
  refine congrArg some (h.ofSerial_eq fun htext hodd => ?_)
  unfold textOf
  split
  · next hlong => exact Encoding.toUtf8WithMark_eq (hmark htext hodd hlong.1 hlong.2.1 hlong.2.2)
  · rfl

/-- What a record holds is read from its fields. -/
theorem value?_eq (hwritten : List.Forall₂ (Written img.encoding) vs x.contents) (hmark : x.Unmarked img kind) (k : Nat) :
    x.value? img kind k = vs[k]?.map Datum.settled := by
  have hlength := hwritten.length_eq
  cases hget : x.contents[k]? with
  | none =>
    rw [value?, hget]
    rw [List.getElem?_eq_none_iff] at hget
    rw [List.getElem?_eq_none (by omega)]
    rfl
  | some c =>
    obtain ⟨hlt, rfl⟩ := List.getElem?_eq_some_iff.mp hget
    rw [value?_of_written hget ((List.forall₂_iff_get.mp hwritten).2 k (by omega) hlt) (hmark k _ hget),
      List.getElem?_eq_getElem (by omega)]
    rfl

/-- A record whose values are written is in order, if its lengths are. -/
theorem isRecord_of_written (hne : vs ≠ []) (hwritten : List.Forall₂ (Written img.encoding) vs x.contents)
    (hheader : Varint.Fits x.width x.headerSize) (hfits : ∀ c ∈ x.contents, Varint.Fits c.width c.serialType)
    (hsizes : ∀ c ∈ x.contents, c.octets.length ≤ 1000000000) (hlimit : x.headerSize ≤ 98307) : x.IsRecord where
  contents_ne hnil := by
    have hlength := hwritten.length_eq
    rw [hnil, List.length_nil, List.length_eq_zero_iff] at hlength
    exact hne hlength
  header := hheader
  headerSize_le := hlimit
  fits := hfits
  size c hc := by
    obtain ⟨k, hk, rfl⟩ := List.getElem_of_mem hc
    have hlength := hwritten.length_eq
    exact ((List.forall₂_iff_get.mp hwritten).2 k (by omega) hk).length_octets
  size_le := hsizes

/-- A header that is too long is refused, if any field is asked for. -/
theorem layoutIn_of_long (hheader : Varint.Fits x.width x.headerSize) (hlong : 98307 < x.headerSize) {count : Nat}
    (hcount : 0 < count) : Record.layoutIn x.payload count = .error .malformed := by
  unfold Record.layoutIn
  simp only [Varint.decode32, decode_payload hheader]
  rw [if_neg (by omega), if_pos (.inl (by unfold Record.maxHeader; omega))]

end Entry

/-- Only reals of a column are read in a way of their own. -/
theorem onRead_of_ne_real {a : Affinity} (h : a ≠ .real) (d : Datum) : a.onRead d = d := by
  cases a <;> first | rfl | exact absurd rfl h

/-- The cell of a record gives back what was written: the number of the row, the length of the payload and where it
begins, and every value. A header of more than 98307 octets is refused. -/
theorem record_reads_back {img : Image} (hp : img.Proper) (hm : img.isMapped = true → img.Mapped) {kind : TreeKind}
    {n count i : Nat} (hnode : Node img kind n true count) (hi : i < count) {x : Entry} {start : Nat}
    (hcell : PayloadCell img n (img.cellAt n true i) kind x.rowid x.payload x.kept start) {vs : List Datum}
    (hne : vs ≠ []) (hwritten : List.Forall₂ (Written img.encoding) vs x.contents)
    (hheader : Varint.Fits x.width x.headerSize) (hfits : ∀ c ∈ x.contents, Varint.Fits c.width c.serialType)
    (hsizes : ∀ c ∈ x.contents, c.octets.length ≤ 1000000000) :
    let c := Cell.ofLeaf img (img.treePage kind n true count) i
    (c.rowid = x.rowid ∧ c.size = x.payload.length ∧ c.start = start) ∧
      ∀ (t : Table) (s : Scan), s.kind = kind →
        (x.headerSize ≤ 98307 → x.Unmarked img kind → t.columns.length = vs.length →
          s.sources = (List.range vs.length).map .field → (∀ column ∈ t.columns, column.type.affinity ≠ .real) →
          (s.row img t c).run' #[] = .ok (vs.map Datum.settled)) ∧
        (98307 < x.headerSize → 0 < s.fieldCount → (s.row img t c).run' #[] = .error .malformed) := by
  have husable := hp.usable_le
  have hstart := hcell.start_lt
  obtain ⟨pages, hspread⟩ := hcell.spread
  rw [← hnode.cellStart_eq hp hi (by omega)] at hcell
  have hread : Cell.ofLeaf img (img.treePage kind n true count) i = img.cell n start x.rowid x.payload x.kept :=
    hcell.ofLeaf_eq hp rfl rfl
  simp only [hread]
  refine ⟨⟨rfl, rfl, rfl⟩, ?_⟩
  rintro t s rfl
  have hrow := (Scan.row_yields hspread hp hm (Entry.decode_payload_le hheader) t x.rowid).run'
  rw [hrow]
  refine ⟨fun hshort hmark hcolumns hsources haffinity => ?_, fun hlong hcount => ?_⟩
  · have hrecord := Entry.isRecord_of_written hne hwritten hheader hfits hsizes hshort
    rw [Scan.rowIn_eq hrecord]
    congr 1
    refine List.ext_getElem (by simp [hcolumns, hsources]) fun k hk hk' => ?_
    rw [List.length_map] at hk'
    have hvalue := Entry.value?_eq hwritten hmark k
    rw [List.getElem?_eq_getElem hk'] at hvalue
    have hcolumn := haffinity (t.columns.get ⟨k, by omega⟩) (List.get_mem _ _)
    rw [List.get_eq_getElem] at hcolumn
    simp only [List.getElem_map, List.getElem_zip, hsources, List.getElem_range, Entry.sourceAt, Entry.columnAt, hvalue,
      Option.map_some, Option.getD_some, onRead_of_ne_real hcolumn]
  · unfold Scan.rowIn
    rw [Entry.layoutIn_of_long hheader hlong hcount]
    rfl

namespace Varied

def values : List Datum :=
  [.integer (-1), .integer (-300), .integer (-8388608), .integer (-140737488355328), .integer 0, .integer 1, .null,
    .real ⟨0xBFE0000000000000⟩, .real ⟨0x7FF8000000000000⟩, .text [0xC3, 0xA9], .blob [0, 0xFF]]

/-- A row with the number -1. The fourth serial type is written in more octets than it needs. -/
def row : Entry :=
  { rowid := -1
    contents :=
      [⟨1, 1, signedOctets 1 (-1)⟩, ⟨2, 1, signedOctets 2 (-300)⟩, ⟨3, 1, signedOctets 3 (-8388608)⟩,
        ⟨5, 2, signedOctets 6 (-140737488355328)⟩, ⟨8, 1, []⟩, ⟨9, 1, []⟩, ⟨0, 1, []⟩,
        ⟨7, 1, octetsOf 8 0xBFE0000000000000⟩, ⟨7, 1, octetsOf 8 0x7FF8000000000000⟩, ⟨17, 1, [0xC3, 0xA9]⟩,
        ⟨16, 1, [0, 0xFF]⟩]
    width := 1
    kept := 45 }

theorem written : List.Forall₂ (Written .utf8) values row.contents :=
  .cons (.integer (by decide) (by decide) (by decide)) <| .cons (.integer (by decide) (by decide) (by decide)) <|
    .cons (.integer (by decide) (by decide) (by decide)) <| .cons (.integer (by decide) (by decide) (by decide)) <|
    .cons .zero <| .cons .one <| .cons .null <| .cons (.real _) <| .cons (.real _) <| .cons (.utf8 _ rfl) <|
    .cons (.blob _) .nil

def cell : List UInt8 :=
  Varint.encodeIn 1 row.payload.length ++ Varint.encodeIn 9 (Varint.unsigned row.rowid) ++ row.payload

/-- A file of which only the second page counts. -/
def octets : List UInt8 :=
  List.replicate 512 0 ++ Small.single .table cell

def img : Image := Small.imageIn .utf8 octets 2

def column : Column := ⟨[], .none, none, none, none, false, false⟩

/-- A table of so many columns without a type. -/
def table (count : Nat) : Table := ⟨[], 2, List.replicate count column, none, false, []⟩

def scan (count : Nat) : Scan := ⟨.table, 2, (List.range count).map .field⟩

/-- The cell of the row is the only one on the second page. -/
theorem file_spec : octets.length = 2 * 512 ∧ Small.HasCells octets 2 .table [cell] ∧ row.payload.length = 45 ∧
    Varint.Fits 1 row.payload.length ∧ Varint.Fits 9 (Varint.unsigned row.rowid) := by
  decide +kernel

theorem page : Node img .table 2 true 1 ∧
    ∃ start, PayloadCell img 2 (img.cellAt 2 true 0) .table row.rowid row.payload row.kept start := by
  obtain ⟨hfile, hcells, hlength, hfits⟩ := file_spec
  have hpage : Node img .table 2 true 1 ∧ img.Holds 2 (img.cellAt 2 true 0) cell :=
    hcells.holds_single hfile (by decide)
  obtain ⟨hnode, hholds⟩ := hpage
  have hpayload := hholds.right
  rw [List.length_append, Varint.length_encodeIn hfits.1.pos, Varint.length_encodeIn hfits.2.pos, ← Nat.add_assoc]
    at hpayload
  have hspread : Spread img .table 2 _ _ _ [] :=
    Spread.of_holds Small.proper (by decide) (by rw [hlength]; decide) hpayload
  rw [hlength] at hspread
  exact ⟨hnode, _, .table hfits.1 (.inl (by decide)) (by decide) (by decide) hfits.2 hholds.left hspread⟩

end Varied

/-- Integers of several widths, both constants, a null, a real, a NaN, a text and a blob are read back. -/
theorem record_reads_back_varied :
    let c := Cell.ofLeaf Varied.img (Varied.img.treePage .table 2 true 1) 0
    c.rowid = -1 ∧ c.size = 45 ∧ ((Varied.scan 11).row Varied.img (Varied.table 11) c).run' #[] =
      .ok [.integer (-1), .integer (-300), .integer (-8388608), .integer (-140737488355328), .integer 0, .integer 1,
        .null, .real ⟨0xBFE0000000000000⟩, .null, .text [0xC3, 0xA9], .blob [0, 0xFF]] := by
  obtain ⟨hnode, start, hcell⟩ := Varied.page
  obtain ⟨hread, hrow⟩ := record_reads_back Small.proper (fun h => by cases h) hnode Nat.one_pos hcell (by decide)
    Varied.written (by decide) (by decide) (by decide)
  refine ⟨hread.1, hread.2.1.trans Varied.file_spec.2.2.1, ?_⟩
  refine ((hrow (Varied.table 11) (Varied.scan 11) rfl).1 (by decide) ?_ rfl rfl (by decide)).trans (by decide)
  intro k c hk _ _ _ hlong
  have hshort : ∀ c ∈ Varied.row.contents, c.octets.length ≤ 8 := by decide
  have := hshort c (List.mem_of_getElem? hk)
  omega

namespace Misread

def values : List Datum := [.text (List.replicate 150 0x61), .integer 1]

def row : Entry := ⟨1, [⟨313, 2, List.replicate 150 0x61⟩, ⟨9, 1, []⟩], 1, 154⟩

theorem written : List.Forall₂ (Written .utf8) values row.contents := by
  have htext (bs : List UInt8) : Written .utf8 (.text bs) ⟨13 + 2 * bs.length, 2, bs⟩ := .utf8 bs rfl
  have hlong := htext (List.replicate 150 0x61)
  rw [List.length_replicate] at hlong
  exact .cons hlong (.cons .one .nil)

/-- The length of the payload is written in nine octets. -/
def cell : List UInt8 :=
  Varint.encodeIn 9 row.payload.length ++ Varint.encodeIn 1 (Varint.unsigned row.rowid) ++ row.payload

/-- A file of which only the second page counts. -/
def octets : List UInt8 :=
  List.replicate 512 0 ++ Small.single .table cell

def img : Image := Small.imageIn .utf8 octets 2

/-- The cell of the row is the only one on the second page, and is longer than it is read to be. -/
theorem file_spec : octets.length = 2 * 512 ∧ Small.HasCells octets 2 .table [cell] ∧ row.IsRecord ∧
    row.payload.length = 154 ∧ 0 < cell.length := by
  decide +kernel

theorem page : Node img .table 2 true 1 ∧ img.Holds 2 (img.cellAt 2 true 0) cell :=
  file_spec.2.1.holds_single file_spec.1 (by decide)

/-- What is read as the payload makes no sense. -/
theorem head_spec : (Varint.decode (row.payload.take 26)).2 ≤ (row.payload.take 26).length ∧
    (Varied.scan 2).rowIn img.encoding (Varied.table 2) 1 (row.payload.take 26) 26 = .error .malformed := by
  decide +kernel

end Misread

/-- A length of 154 that is written in nine octets is read as one of 26, so that the record behind it makes no sense. -/
theorem length_in_nine_octets_misread :
    List.Forall₂ (Written .utf8) Misread.values Misread.row.contents ∧ Misread.row.IsRecord ∧
      Misread.row.payload.length = 154 ∧ Varint.Fits 9 154 ∧ Node Misread.img .table 2 true 1 ∧
      Misread.img.Holds 2 (Misread.img.cellAt 2 true 0) Misread.cell ∧
      let c := Cell.ofLeaf Misread.img (Misread.img.treePage .table 2 true 1) 0
      c.size = 26 ∧
        ((Varied.scan 2).row Misread.img (Varied.table 2) c).run' #[] = .error .malformed := by
  obtain ⟨hnode, hholds⟩ := Misread.page
  obtain ⟨-, -, hrecord, hlength, hlong⟩ := Misread.file_spec
  have hfits : Varint.Fits 9 Misread.row.payload.length ∧ Varint.Fits 1 (Varint.unsigned 1) := by
    rw [hlength]
    decide
  refine ⟨Misread.written, hrecord, hlength, by decide, hnode, hholds, ?_⟩
  -- what is read as the payload is its head
  have hhead : (Misread.row.payload.take 26).length = 26 := by
    rw [List.length_take, hlength]
    rfl
  have hpayload := hholds.right.part (show 0 + 26 ≤ Misread.row.payload.length by omega)
  rw [List.drop_zero, Nat.add_zero, List.length_append, Varint.length_encodeIn hfits.1.pos,
    Varint.length_encodeIn (by decide), ← Nat.add_assoc] at hpayload
  have hspread : Spread Misread.img .table 2 _ _ _ [] :=
    Spread.of_holds Small.proper (by decide) (by rw [hhead]; decide) hpayload
  have hwithin := hholds.within
  have hstart := hnode.cellStart_eq Small.proper Nat.one_pos (show _ < 512 by
    have hsize : Misread.img.usable = 512 := rfl
    omega)
  rw [hhead, ← hstart] at hspread
  rw [← hstart] at hholds
  have hread : Cell.ofLeaf Misread.img (Misread.img.treePage .table 2 true 1) 0 = _ :=
    Cell.ofLeaf_table Small.proper rfl rfl hfits.1 (by rw [hhead, hlength]; rfl) (by decide) (by decide) hfits.2
      hholds.left hspread
  have hrow := (Scan.row_yields (s := Varied.scan 2) hspread Small.proper (fun h => by cases h) Misread.head_spec.1
    (Varied.table 2) 1).run'
  intro c
  rw [show c = _ from hread]
  exact ⟨hhead, hrow.trans Misread.head_spec.2⟩

end FirstRow.Store
