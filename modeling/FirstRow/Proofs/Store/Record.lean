import FirstRow.Proofs.Store.Decoding
import FirstRow.Proofs.Store.Payload

/-!
# Records read back

The layout of an entry's record has the first fields that are asked for, wherever on the page or in its chain they
stand, and every field has the value that was written. What is read of long texts of a table is subject to one
exception, which `Entry.textOf` states.
-/
namespace FirstRow.Store

namespace Entry

/-- Where in the payload the value of a field begins. -/
def offset (x : Entry) (k : Nat) : Nat :=
  x.headerSize + (values (x.contents.take k)).length

/-- How the text in a field is read. Of a long text of a table that is not all on its page, a byte-order mark is no
part. -/
def textOf (img : Image) (kind : TreeKind) (x : Entry) (k : Nat) (length : Nat) : List UInt8 → List UInt8 :=
  if kind = .table ∧ 4000 < length ∧ x.kept < x.offset k + length then img.encoding.toUtf8WithMark
  else img.encoding.toUtf8

/-- The value of a field, if the record has it. -/
def value? (img : Image) (kind : TreeKind) (x : Entry) (k : Nat) : Option Datum :=
  x.contents[k]?.map fun c => .ofSerial (x.textOf img kind k c.octets.length) c.serialType c.octets

/-- The fields of a record of which the first value begins at an offset. -/
def fieldsFrom : Nat → List Content → List Field
  | _, [] => []
  | offset, c :: cs => ⟨c.serialType, offset⟩ :: fieldsFrom (offset + c.octets.length) cs

/-- The first fields of a record. -/
def layout (x : Entry) (count : Nat) : Record.Layout :=
  ⟨(fieldsFrom x.headerSize (x.contents.take count)).toArray, false⟩

@[simp] theorem types_cons (c : Content) (cs : List Content) :
    types (c :: cs) = Varint.encodeIn c.width c.serialType ++ types cs := rfl

@[simp] theorem values_cons (c : Content) (cs : List Content) : values (c :: cs) = c.octets ++ values cs := rfl

theorem values_append (cs ds : List Content) : values (cs ++ ds) = values cs ++ values ds :=
  List.flatMap_append

theorem length_types {cs : List Content} (h : ∀ c ∈ cs, Varint.Fits c.width c.serialType) :
    (types cs).length = (cs.map Content.width).sum := by
  induction cs with
  | nil => rfl
  | cons c cs ih =>
    have hc := (h c (by simp)).pos
    have hcs := ih fun d hd => h d (List.mem_cons_of_mem c hd)
    simp only [types_cons, List.length_append, Varint.length_encodeIn hc, hcs, List.map_cons, List.sum_cons]

/-- A field of the layout is that of its content, where the values in front of it end. -/
theorem getElem?_fieldsFrom (cs : List Content) (offset k : Nat) :
    (fieldsFrom offset cs)[k]? = cs[k]?.map fun c => ⟨c.serialType, offset + (values (cs.take k)).length⟩ := by
  induction cs generalizing offset k with
  | nil => rfl
  | cons c cs ih =>
    cases k with
    | zero => rfl
    | succ k => simp [fieldsFrom, ih, Nat.add_assoc]

variable {x : Entry}

/-- A payload begins with the length of the header. -/
theorem decode_payload (hheader : Varint.Fits x.width x.headerSize) :
    Varint.decode x.payload = (x.headerSize, x.width) := by
  rw [payload, List.append_assoc, Varint.decode_encodeIn hheader]

/-- The length of the header ends inside the payload. -/
theorem decode_payload_le (hheader : Varint.Fits x.width x.headerSize) :
    (Varint.decode x.payload).2 ≤ x.payload.length := by
  rw [decode_payload hheader, payload, List.length_append, List.length_append, Varint.length_encodeIn hheader.pos]
  omega

namespace IsRecord

theorem length_header (h : x.IsRecord) :
    (Varint.encodeIn x.width x.headerSize ++ types x.contents).length = x.headerSize := by
  rw [List.length_append, Varint.length_encodeIn h.header.pos, length_types h.fits]
  rfl

theorem width_lt (h : x.IsRecord) : x.width < x.headerSize := by
  obtain ⟨c, cs, hcs⟩ := List.exists_cons_of_ne_nil h.contents_ne
  have hpos := (h.fits c (by rw [hcs]; simp)).pos
  unfold headerSize
  rw [hcs, List.map_cons, List.sum_cons]
  omega

theorem length_payload (h : x.IsRecord) : x.payload.length = x.headerSize + (values x.contents).length := by
  rw [payload, List.length_append, h.length_header]

/-- A serial type has 32 bits, as the value is not too long. -/
theorem serialType_le (h : x.IsRecord) {c : Content} (hc : c ∈ x.contents) : c.serialType ≤ 0xFFFFFFFF := by
  have hsize := h.size c hc
  have hle := h.size_le c hc
  unfold serialSize at hsize
  split at hsize <;> omega

/-- The value of a field stands where the layout says. -/
theorem take_drop_offset (h : x.IsRecord) {k : Nat} {c : Content} (hk : x.contents[k]? = some c) :
    (x.payload.drop (x.offset k)).take c.octets.length = c.octets ∧
      x.offset k + c.octets.length ≤ x.payload.length := by
  obtain ⟨hlt, hget⟩ := List.getElem?_eq_some_iff.mp hk
  have hsplit : values x.contents = values (x.contents.take k) ++ (c.octets ++ values (x.contents.drop (k + 1))) := by
    rw [← values_cons, ← hget, ← List.drop_eq_getElem_cons hlt, ← values_append, List.take_append_drop]
  have hlength := h.length_header
  have hpayload := h.length_payload
  rw [hsplit, List.length_append, List.length_append] at hpayload
  refine ⟨?_, by unfold offset; omega⟩
  unfold offset
  rw [payload, ← List.drop_drop, List.drop_append_of_le_length (Nat.le_of_eq hlength.symm),
    List.drop_of_length_le (Nat.le_of_eq hlength), List.nil_append, hsplit, List.drop_left, List.take_left]

end IsRecord
end Entry

namespace Record

open Entry

/-- Reading serial types one after the other gives the fields that they describe, up to as many as are asked for. -/
theorem layoutFrom_eq {header rest : List UInt8} {size total : Nat} {cs : List Content} (hne : cs ≠ [])
    (hfits : ∀ c ∈ cs, Varint.Fits c.width c.serialType ∧ c.serialType ≤ 0xFFFFFFFF)
    (hsizes : ∀ c ∈ cs, c.octets.length = serialSize c.serialType) (count position offset : Nat) (l : Layout) :
    header.drop position = types cs ++ rest → position + (cs.map Content.width).sum = size →
    offset + (values cs).length = total →
    layoutFrom header size total count position offset l =
      { l with fields := l.fields ++ (fieldsFrom offset (cs.take count)).toArray } := by
  induction cs generalizing count position offset l with
  | nil => exact absurd rfl hne
  | cons c cs ih =>
    intro hheader hsize htotal
    cases count with
    | zero => simp [layoutFrom, fieldsFrom]
    | succ count =>
      obtain ⟨hfit, hle⟩ := hfits c (by simp)
      have hlength := hsizes c (by simp)
      rw [types_cons, List.append_assoc] at hheader
      rw [List.map_cons, List.sum_cons] at hsize
      rw [values_cons, List.length_append] at htotal
      have hnext : header.drop (position + c.width) = types cs ++ rest := by
        rw [← List.drop_drop, hheader, List.drop_append_of_le_length (by rw [Varint.length_encodeIn hfit.pos]),
          List.drop_of_length_le (by rw [Varint.length_encodeIn hfit.pos]), List.nil_append]
      have hread : Varint.decode32 (header.drop position) = (c.serialType, c.width) := by
        rw [hheader]
        simp only [Varint.decode32, Varint.decode_encodeIn hfit, Nat.min_eq_left hle]
      simp only [layoutFrom, hread, ← hlength]
      by_cases hlast : cs = []
      · -- the header ends with this field, and the values fill the record
        subst hlast
        rw [List.map_nil, List.sum_nil] at hsize
        rw [show values [] = [] from rfl, List.length_nil] at htotal
        rw [if_neg (by simp; omega), if_neg (by omega)]
        simp [fieldsFrom]
      · obtain ⟨d, ds, rfl⟩ := List.exists_cons_of_ne_nil hlast
        have hpos := (hfits d (by simp)).1.pos
        rw [List.map_cons, List.sum_cons] at hsize
        rw [if_neg (by simp; omega), if_pos (by omega),
          ih hlast (fun e he => hfits e (List.mem_cons_of_mem c he)) (fun e he => hsizes e (List.mem_cons_of_mem c he))
            count (position + c.width) (offset + c.octets.length) _ hnext
            (by rw [List.map_cons, List.sum_cons]; omega) (by omega)]
        simp [fieldsFrom]

/-- The fields that the header of a record describes, whatever follows the header. -/
theorem layoutOf_eq {x : Entry} (h : x.IsRecord) (count : Nat) (rest : List UInt8) :
    layoutOf (Varint.encodeIn x.width x.headerSize ++ types x.contents ++ rest) x.headerSize x.width x.payload.length
      count = x.layout count := by
  have hpos := h.width_lt
  have hrest : (Varint.encodeIn x.width x.headerSize ++ types x.contents ++ rest).drop x.width =
      types x.contents ++ rest := by
    have hlength := Varint.length_encodeIn (v := x.headerSize) h.header.pos
    rw [List.append_assoc, List.drop_append_of_le_length (Nat.le_of_eq hlength.symm),
      List.drop_of_length_le (Nat.le_of_eq hlength), List.nil_append]
  unfold layoutOf
  have hsize : x.width + (x.contents.map Content.width).sum = x.headerSize := rfl
  rw [if_neg (by omega), layoutFrom_eq h.contents_ne (fun c hc => ⟨h.fits c hc, h.serialType_le hc⟩) h.size count
    x.width x.headerSize _ hrest hsize h.length_payload.symm]
  simp [Entry.layout]

/-- The payload of an entry has the layout of its record. -/
theorem layoutIn_eq {x : Entry} (h : x.IsRecord) (count : Nat) : layoutIn x.payload count = .ok (x.layout count) := by
  have hlength := h.length_payload
  have hlimit := h.headerSize_le
  have hsize : Varint.decode32 x.payload = (x.headerSize, x.width) := by
    simp only [Varint.decode32, decode_payload h.header, Nat.min_eq_left (show x.headerSize ≤ 0xFFFFFFFF by omega)]
  unfold layoutIn
  by_cases hcount : count = 0
  · simp [hcount, Entry.layout, fieldsFrom]
  rw [if_neg hcount, hsize]
  simp only
  rw [if_neg (by unfold maxHeader; omega)]
  exact congrArg Except.ok (layoutOf_eq h count (values x.contents))

/-- The payload of an entry has the values of its record. -/
theorem valueIn_eq {img : Image} {kind : TreeKind} {x : Entry} (h : x.IsRecord) {k : Nat} {c : Content}
    (hk : x.contents[k]? = some c) :
    valueIn (textIn img.encoding kind x.kept) x.payload ⟨c.serialType, x.offset k⟩ =
      .ok (.ofSerial (x.textOf img kind k c.octets.length) c.serialType c.octets) := by
  have hmem := List.mem_of_getElem? hk
  have hsize := h.size c hmem
  have hlimit := h.size_le c hmem
  unfold valueIn textIn textOf
  simp only [← hsize, (h.take_drop_offset hk).1]
  rw [if_neg (by unfold maxLength; omega)]

variable {img : Image} {kind : TreeKind} {n i : Nat} {x : Entry} {pages : List Nat}

/-- The layout of a record is read, wherever its header ends. -/
theorem layout_gives (h : Stores img kind n i x pages) (hp : img.Proper) (hm : img.isMapped = true → img.Mapped)
    (hrecord : x.IsRecord) (count : Nat) : Gives pages (layout img (x.cell img n i) count) (x.layout count) := by
  have hread := layout_yields h.spread hp hm (decode_payload_le hrecord.header) x.rowid count
  rwa [layoutIn_eq hrecord] at hread

/-- The value of a field is read. -/
theorem value_gives (h : Stores img kind n i x pages) (hp : img.Proper) (hm : img.isMapped = true → img.Mapped)
    (hrecord : x.IsRecord) {k : Nat} {c : Content} (hk : x.contents[k]? = some c) :
    Gives pages (value img kind (x.cell img n i) ⟨c.serialType, x.offset k⟩)
      (.ofSerial (x.textOf img kind k c.octets.length) c.serialType c.octets) := by
  have hwithin := (hrecord.take_drop_offset hk).2
  rw [hrecord.size c (List.mem_of_getElem? hk)] at hwithin
  have hread := value_yields h.spread hp hm hwithin x.rowid (f := ⟨c.serialType, x.offset k⟩)
  rwa [valueIn_eq hrecord hk] at hread

/-- A field that the layout has is that of a content. -/
theorem field?_eq (x : Entry) {count k : Nat} (hk : k < count) :
    (x.layout count).field? k = .ok (x.contents[k]?.map fun c => ⟨c.serialType, x.offset k⟩) := by
  have hget : (x.layout count).fields[k]? = x.contents[k]?.map fun c => ⟨c.serialType, x.offset k⟩ := by
    simp only [Entry.layout, List.getElem?_toArray, getElem?_fieldsFrom, List.getElem?_take_of_lt hk, List.take_take,
      Nat.min_eq_left (Nat.le_of_lt hk)]
    rfl
  unfold Layout.field?
  rw [hget]
  cases x.contents[k]? <;> rfl

end Record
end FirstRow.Store
