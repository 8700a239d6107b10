import FirstRow.Proofs.Store.Spread
import FirstRow.Store.Scan

/-!
# Records without pages

`Record.layoutIn`, `Record.valueIn` and `Scan.rowIn` read a record from its payload alone, a list of octets. What a cell
gives is the same, wherever its page ends and its chain goes: of the octets of a page none behind the payload counts, if
the length of the header ends inside the payload.
-/
namespace FirstRow.Store

namespace Record

/-- The first `count` fields of a record, from its payload. -/
def layoutIn (payload : List UInt8) (count : Nat) : Except Error Layout :=
  if count = 0 then .ok ⟨#[], false⟩
  else
    let (size, n) := Varint.decode32 payload
    if maxHeader < size ∨ payload.length < size then .error .malformed
    else .ok (layoutOf payload size n payload.length count)

/-- The value of a field, from the payload of its record. -/
def valueIn (asText : Field → List UInt8 → List UInt8) (payload : List UInt8) (f : Field) : Except Error Datum :=
  if maxLength < serialSize f.serialType then .error .tooBig
  else .ok (.ofSerial (asText f) f.serialType ((payload.drop f.offset).take (serialSize f.serialType)))

/-- How the text in a field is read, where the page of its cell keeps so much of the payload. Of a long text of a table
that is not all on its page, a byte-order mark is no part. -/
def textIn (e : Encoding) (kind : TreeKind) (kept : Nat) (f : Field) : List UInt8 → List UInt8 :=
  if kind = .table ∧ 4000 < serialSize f.serialType ∧ kept < f.offset + serialSize f.serialType then e.toUtf8WithMark
  else e.toUtf8

/-! ## Headers -/

/-- Behind the end of a header nothing matters: a serial type that goes on there is one too many. -/
theorem layoutFrom_congr {header header' : List UInt8} {size : Nat} (h : header'.take size = header.take size)
    (total count position offset : Nat) (l : Layout) :
    layoutFrom header' size total count position offset l = layoutFrom header size total count position offset l := by
  induction count generalizing position offset l with
  | zero => rfl
  | succ count ih =>
    have hrest : (header'.drop position).take (size - position) = (header.drop position).take (size - position) := by
      rw [← List.drop_take, ← List.drop_take, h]
    by_cases hends : (Varint.decode (header.drop position)).2 ≤ size - position
    · simp only [layoutFrom, Varint.decode32_congr hrest hends, ih]
    · have hends' : ¬(Varint.decode (header'.drop position)).2 ≤ size - position := by
        intro hle
        rw [← Varint.decode_congr hrest.symm hle] at hle
        exact hends hle
      -- in neither header the serial type ends in time
      have hbroken (bs : List UInt8) (hbs : ¬(Varint.decode (bs.drop position)).2 ≤ size - position) :
          layoutFrom bs size total (count + 1) position offset l = { l with broken := true } := by
        have hlate : size < position + (Varint.decode (bs.drop position)).2 := by omega
        simp only [layoutFrom, Varint.decode32, hlate, decide_true, Bool.or_true, Bool.true_or, if_true]
      rw [hbroken _ hends, hbroken _ hends']

theorem layoutOf_congr {header header' : List UInt8} {size : Nat} (h : header'.take size = header.take size)
    (position total count : Nat) :
    layoutOf header' size position total count = layoutOf header size position total count := by
  simp only [layoutOf, layoutFrom_congr h]

/-- The values of all fields lie inside the record. -/
theorem layoutFrom_within {header : List UInt8} {size total : Nat} (count position offset : Nat) (l : Layout)
    (h : ∀ f ∈ l.fields, f.offset + serialSize f.serialType ≤ total) :
    ∀ f ∈ (layoutFrom header size total count position offset l).fields,
      f.offset + serialSize f.serialType ≤ total := by
  induction count generalizing position offset l with
  | zero => exact h
  | succ count ih =>
    simp only [layoutFrom]
    split
    · exact h
    · next hfits =>
      have hnext : ∀ f ∈ l.fields.push ⟨(Varint.decode32 (header.drop position)).1, offset⟩,
          f.offset + serialSize f.serialType ≤ total := by
        intro f hf
        rcases Array.mem_push.mp hf with hf | rfl
        · exact h f hf
        · simp only [Bool.or_eq_true, decide_eq_true_eq, not_or] at hfits
          exact Nat.le_of_not_lt hfits.1.1
      split
      · exact ih _ _ _ hnext
      · exact hnext

theorem layoutOf_within {header : List UInt8} {size position total count : Nat} :
    ∀ f ∈ (layoutOf header size position total count).fields, f.offset + serialSize f.serialType ≤ total := by
  unfold layoutOf
  split
  · simp
  · exact layoutFrom_within _ _ _ _ (by simp)

theorem layoutIn_within {payload : List UInt8} {count : Nat} {l : Layout} (h : layoutIn payload count = .ok l) {i : Nat}
    {f : Field} (hf : l.field? i = .ok (some f)) : f.offset + serialSize f.serialType ≤ payload.length := by
  have hmem : f ∈ l.fields := by
    unfold Layout.field? at hf
    split at hf
    · next g hg =>
      cases hf
      exact Array.mem_of_getElem? hg
    · split at hf <;> cases hf
  unfold layoutIn at h
  split at h
  · cases h
    simp at hmem
  · simp only at h
    split at h
    · cases h
    · cases h
      exact layoutOf_within f hmem

/-! ## Cells -/

section

variable {img : Image} {kind : TreeKind} {n i : Nat} {payload : List UInt8} {kept : Nat} {pages : List Nat}

/-- What the page keeps of a payload is all that is read from there. -/
theorem available_eq (h : Spread img kind n i payload kept pages) (hp : img.Proper) (rowid : Int) :
    (img.cell n i rowid payload kept).available img = kept := by
  have hwithin := h.within hp
  have husable := hp.usable_le
  exact Nat.min_eq_left (by simp only [Image.cell]; omega)

/-- The page begins with what it keeps. -/
theorem take_octetsAt (h : Spread img kind n i payload kept pages) (hp : img.Proper) {k : Nat} (hk : k ≤ kept) :
    (octetsAt (img.pageOf n).octets i (img.pageSize - i)).take k = payload.take k := by
  have hwithin := h.within hp
  have husable := hp.usable_le
  have hhere := h.octetsAt_here hp (show 0 + k ≤ kept by omega)
  rw [octetsAt_take (by omega)]
  simpa using hhere

/-- An integer at the head of the payload is on the page. -/
theorem decode_le_kept (h : Spread img kind n i payload kept pages) (hp : img.Proper)
    (hends : (Varint.decode payload).2 ≤ payload.length) : (Varint.decode payload).2 ≤ kept := by
  have hnine := Varint.decode_le payload
  rcases h.keeps.ge with heq | hge
  · omega
  · have := (Spread.limit_ge hp kind).1
    omega

/-- The fields of a record are those of its payload. -/
theorem layout_yields (h : Spread img kind n i payload kept pages) (hp : img.Proper)
    (hm : img.isMapped = true → img.Mapped) (hends : (Varint.decode payload).2 ≤ payload.length) (rowid : Int)
    (count : Nat) : Yields pages (layout img (img.cell n i rowid payload kept) count) (layoutIn payload count) := by
  have hwithin := h.within hp
  have husable := hp.usable_le
  have hpage := hp.pageSize_le
  have hkept := h.kept_le hp
  have htotal := h.length_le_totalSize hp
  have hdecode := decode_le_kept h hp hends
  have hsize : Varint.decode32 (octetsAt (img.pageOf n).octets i (img.pageSize - i)) = Varint.decode32 payload :=
    Varint.decode32_congr (take_octetsAt h hp hdecode) (Nat.le_refl _)
  have hpos : 0 < (Varint.decode payload).2 := Varint.decodeFrom_pos 0 8 payload
  have hwidth : (Varint.decode32 payload).2 ≤ kept := hdecode
  unfold layout layoutIn
  by_cases hcount : count = 0
  · simp only [hcount, if_true]
    exact Yields.lift (.ok _)
  have hstart : ¬img.pageSize ≤ (img.cell n i rowid payload kept).start := by
    simp only [Image.cell]
    omega
  rw [if_neg hcount, if_neg hcount, if_neg hstart, available_eq h hp]
  simp only [Image.cell, hsize]
  generalize Varint.decode32 payload = header at hwidth ⊢
  obtain ⟨size, width⟩ := header
  by_cases hhere : size ≤ kept
  · -- the page holds the header
    have hlimits : ¬(maxHeader < size ∨ payload.length < size) := by
      unfold maxHeader
      omega
    simp only [if_pos hhere, if_neg hlimits, layoutOf_congr (take_octetsAt h hp hhere)]
    exact Yields.lift (.ok _)
  · by_cases hlimits : maxHeader < size ∨ payload.length < size
    · simp only [if_neg hhere, if_pos hlimits, show (decide (maxHeader < size) || decide (payload.length < size)) = true
        by simpa using hlimits, if_true]
      exact Yields.throw .malformed
    · simp only [if_neg hhere, if_neg hlimits, show ¬(decide (maxHeader < size) || decide (payload.length < size)) = true
        by simpa using hlimits, if_false, show ¬size ≤ width by omega, show ¬img.totalSize < size by omega]
      have hread := h.read_gives hp hm (show 0 + size ≤ payload.length by omega) rowid
      refine hread.yields.bind (g := fun _ => .ok _) fun header hheader => ?_
      cases hheader
      rw [List.drop_zero, layoutOf_congr (List.take_take.trans (by rw [Nat.min_self]))]
      exact Yields.lift (.ok _)

/-- The value of a field is that of its payload. -/
theorem value_yields (h : Spread img kind n i payload kept pages) (hp : img.Proper)
    (hm : img.isMapped = true → img.Mapped) {f : Field} (hf : f.offset + serialSize f.serialType ≤ payload.length)
    (rowid : Int) :
    Yields pages (value img kind (img.cell n i rowid payload kept) f)
      (valueIn (textIn img.encoding kind kept) payload f) := by
  have hwithin := h.within hp
  have husable := hp.usable_le
  have hpage := hp.pageSize_le
  have htotal := h.length_le_totalSize hp
  unfold value valueIn textIn
  simp only [available_eq h hp]
  by_cases hhere : f.offset + serialSize f.serialType ≤ kept
  · -- the page holds the value
    rw [if_pos hhere, if_neg (by unfold maxLength; omega), if_neg (by omega)]
    simp only [Image.cell, h.octetsAt_here hp hhere]
    exact Yields.lift (.ok _)
  rw [if_neg hhere]
  by_cases hempty : serialSize f.serialType = 0
  · rw [if_pos hempty, if_neg (by unfold maxLength; omega), if_neg (by omega), hempty, List.take_zero]
    exact Yields.lift (.ok _)
  rw [if_neg hempty]
  by_cases hbig : maxLength < serialSize f.serialType
  · simp only [if_pos hbig]
    exact Yields.throw .tooBig
  simp only [if_neg hbig]
  have hread := (h.read_gives hp hm hf rowid).yields
  by_cases hlong : kind = .table ∧ 4000 < serialSize f.serialType
  · simp only [show (decide (4000 < serialSize f.serialType) && decide (kind = .table)) = true by simpa using hlong.symm,
      if_true, if_pos (show kind = .table ∧ 4000 < serialSize f.serialType ∧ kept < f.offset + serialSize f.serialType
        from ⟨hlong.1, hlong.2, by omega⟩)]
    refine hread.bind (g := fun _ => .ok _) fun bs hbs => ?_
    cases hbs
    exact Yields.lift (.ok _)
  · simp only [show ¬(decide (4000 < serialSize f.serialType) && decide (kind = .table)) = true by
        simpa [and_comm] using hlong,
      if_false, if_neg (show ¬(kind = .table ∧ 4000 < serialSize f.serialType ∧
        kept < f.offset + serialSize f.serialType) from fun hall => hlong ⟨hall.1, hall.2.1⟩),
      show ¬img.totalSize < f.offset + serialSize f.serialType by omega]
    refine hread.bind (g := fun _ => .ok _) fun bs hbs => ?_
    cases hbs
    exact Yields.lift (.ok _)

end
end Record

namespace Scan

open FirstRow.Sql

/-- The values of a row in declared order, from the payload of its record. -/
def rowIn (e : Encoding) (t : Table) (s : Scan) (rowid : Int) (payload : List UInt8) (kept : Nat) :
    Except Error (List Datum) := do
  let layout ← Record.layoutIn payload s.fieldCount
  (t.columns.zip s.sources).mapM fun (column, source) =>
    match source with
    | .rowid => .ok (.integer rowid)
    | .computed => .ok .null
    | .field p => do
      match ← layout.field? p with
      | some f => return column.type.affinity.onRead (← Record.valueIn (Record.textIn e s.kind kept) payload f)
      | none => return column.type.affinity.onRead (column.missing e)

/-- The values of a row are those of its payload. -/
theorem row_yields {img : Image} {s : Scan} {n i : Nat} {payload : List UInt8} {kept : Nat} {pages : List Nat}
    (h : Spread img s.kind n i payload kept pages) (hp : img.Proper) (hm : img.isMapped = true → img.Mapped)
    (hends : (Varint.decode payload).2 ≤ payload.length) (t : Table) (rowid : Int) :
    Yields pages (s.row img t (img.cell n i rowid payload kept)) (s.rowIn img.encoding t rowid payload kept) := by
  refine (Record.layout_yields h hp hm hends rowid s.fieldCount).bind fun layout hlayout => ?_
  refine Yields.mapM fun (column, source) _ => ?_
  cases source with
  | rowid => exact Yields.lift (.ok _)
  | computed => exact Yields.lift (.ok _)
  | field p =>
    refine (Yields.lift (layout.field? p)).bind fun field hfield => ?_
    cases field with
    | none => exact Yields.lift (.ok _)
    | some f =>
      have hvalue := Record.value_yields h hp hm (Record.layoutIn_within hlayout hfield) rowid
      exact hvalue.bind fun d _ => Yields.lift (.ok _)

end Scan
end FirstRow.Store
