import FirstRow.Proofs.Binary64.Rounding
import FirstRow.Proofs.Fetch

/-!
# The first two columns

What is served of a row are its first two columns, each in the JSON form that its value has. `HasForm` and `Fails` say
of every stored value which form it has, or why it has none; `Served` and `Refused` say it of a row. The leftmost column
that fails decides, and what stands behind the first two columns or the first row is of no matter.
-/
namespace FirstRow

open FirstRow.Store

/-- A number that is neither finite nor a NaN is infinite. -/
theorem Binary64.eq_infinity {x : Binary64} (hfin : x.isFinite = false) (hnan : x.isNaN = false) :
    x = infinity x.negative := by
  have hbits := x.bits.toNat_lt
  have hfield : ¬x.bits.toNat / 0x10000000000000 % 0x800 < 2047 := of_decide_eq_false hfin
  have hfraction : ¬(x.bits.toNat / 0x10000000000000 % 0x800 = 2047 ∧ x.bits.toNat % 0x10000000000000 ≠ 0) := by
    rw [isNaN, ← Bool.decide_and] at hnan
    exact of_decide_eq_false hnan
  rw [infinity, Binary64.mk.injEq, ← UInt64.toNat_inj]
  unfold negative
  by_cases hneg : 0x8000000000000000 ≤ x.bits.toNat
  · simp only [hneg, decide_true, if_true]
    show x.bits.toNat = 0xFFF0000000000000
    omega
  · simp only [hneg, decide_false, Bool.false_eq_true, if_false]
    show x.bits.toNat = 0x7FF0000000000000
    omega

namespace Fetch

/-! ## Values -/

/-- The JSON form of a value. A real stays a real, with the same bits. -/
inductive HasForm : Datum → Json → Prop where
  | null : HasForm .null .null
  | nan {x : Binary64} : x.isNaN = true → HasForm (.real x) .null
  | integer (n : Int) : HasForm (.integer n) (.integer n)
  | real (x : Binary64.Finite) : HasForm (.real x.val) (.real x)
  | text (s : List Char) : HasForm (.text (Text.Utf8.encode s)) (.string (String.ofList s))

/-- The failure of a column whose value has no JSON form. -/
inductive Fails (column : Nat) : Datum → Failure → Prop where
  | blob (bs : List UInt8) : Fails column (.blob bs) (.unsupportedValue column "BLOB")
  | infinite (negative : Bool) : Fails column (.real (.infinity negative)) (.unsupportedValue column "REAL")
  | text {bs : List UInt8} {fault : Text.Utf8.Fault} : (∀ s, Text.Utf8.encode s ≠ bs) →
      Text.Utf8.decode bs = .error fault → Fails column (.text bs) (.database (.columnNotText column fault))

/-- The form of a value is the one that is found. -/
theorem HasForm.json_eq {d : Datum} {j : Json} (h : HasForm d j) (i : Nat) : json i d = .ok j := by
  cases h with
  | null => rfl
  | nan hnan => simp only [json, hnan, if_true]
  | integer n => rfl
  | real x => simp only [json, Binary64.isNaN_of_isFinite x.property, Bool.false_eq_true, if_false, x.property, dif_pos]
  | text s => simp only [json, Text.Utf8.decode_encode]

/-- The failure of a value is the one that is reported. -/
theorem Fails.json_eq {i : Nat} {d : Datum} {e : Failure} (h : Fails i d e) : json i d = .error e := by
  cases h with
  | blob bs => rfl
  | infinite negative => cases negative <;> rfl
  | text hnone hfault => simp only [json, hfault]

/-- Every value has a form or fails. -/
theorem form_or_fails (i : Nat) (d : Datum) : (∃ j, HasForm d j) ∨ ∃ e, Fails i d e := by
  cases d with
  | null => exact .inl ⟨_, .null⟩
  | integer n => exact .inl ⟨_, .integer n⟩
  | real x =>
    by_cases hnan : x.isNaN = true
    · exact .inl ⟨_, .nan hnan⟩
    · by_cases hfin : x.isFinite = true
      · exact .inl ⟨_, .real ⟨x, hfin⟩⟩
      · have hinf := Binary64.eq_infinity (by simpa using hfin) (by simpa using hnan)
        rw [hinf]
        exact .inr ⟨_, .infinite _⟩
  | text bs =>
    cases hdecode : Text.Utf8.decode bs with
    | ok s =>
      rw [← Text.Utf8.decode_eq_ok_iff.mp hdecode]
      exact .inl ⟨_, .text s⟩
    | error fault =>
      refine .inr ⟨_, .text (fun s hs => ?_) hdecode⟩
      rw [Text.Utf8.decode_eq_ok_iff.mpr hs] at hdecode
      cases hdecode
  | blob bs => exact .inr ⟨_, .blob bs⟩

theorem json_eq_ok_iff {i : Nat} {d : Datum} {j : Json} : json i d = .ok j ↔ HasForm d j := by
  refine ⟨fun h => ?_, fun h => h.json_eq i⟩
  rcases form_or_fails i d with ⟨j', hform⟩ | ⟨e, hfails⟩
  · rw [hform.json_eq i, Except.ok.injEq] at h
    exact h ▸ hform
  · rw [hfails.json_eq] at h
    cases h

theorem json_eq_error_iff {i : Nat} {d : Datum} {e : Failure} : json i d = .error e ↔ Fails i d e := by
  refine ⟨fun h => ?_, fun h => h.json_eq⟩
  rcases form_or_fails i d with ⟨j, hform⟩ | ⟨e', hfails⟩
  · rw [hform.json_eq i] at h
    cases h
  · rw [hfails.json_eq, Except.error.injEq] at h
    exact h ▸ hfails

/-! ## Rows -/

/-- What is served of a row: the forms of its first two values. -/
inductive Served : List Datum → Row → Prop where
  | both {a b : Datum} {rest : List Datum} {i j : Json} : HasForm a i → HasForm b j → Served (a :: b :: rest) ⟨i, j⟩

/-- Why a row is not served: its first value has no form, or if that has one, the second has none or is not there. -/
inductive Refused : List Datum → Failure → Prop where
  | first {a : Datum} {rest : List Datum} {e : Failure} : Fails 0 a e → Refused (a :: rest) e
  | second {a b : Datum} {rest : List Datum} {i : Json} {e : Failure} : HasForm a i → Fails 1 b e →
      Refused (a :: b :: rest) e
  | missing {a : Datum} {i : Json} : HasForm a i → Refused [a] (.database (.columnIndexOutOfBounds 1 1))

theorem Served.row_eq {ds : List Datum} {r : Row} (h : Served ds r) : row ds = .ok r := by
  obtain ⟨hi, hj⟩ := h
  simp only [row, column, List.getElem?_cons_zero, List.getElem?_cons_succ, bind, Except.bind, hi.json_eq, hj.json_eq]

theorem Refused.row_eq {ds : List Datum} {e : Failure} (h : Refused ds e) : row ds = .error e := by
  cases h with
  | first he => simp only [row, column, List.getElem?_cons_zero, bind, Except.bind, he.json_eq]
  | second hi he =>
    simp only [row, column, List.getElem?_cons_zero, List.getElem?_cons_succ, bind, Except.bind, hi.json_eq, he.json_eq]
  | missing hi =>
    simp only [row, column, List.getElem?_cons_zero, List.getElem?_cons_succ, List.getElem?_nil, bind, Except.bind,
      hi.json_eq, List.length_singleton]

/-- Every row that has columns is served or not. -/
theorem served_or_refused {ds : List Datum} (h : ds ≠ []) : (∃ r, Served ds r) ∨ ∃ e, Refused ds e := by
  obtain ⟨a, rest, rfl⟩ := List.exists_cons_of_ne_nil h
  rcases form_or_fails 0 a with ⟨i, hi⟩ | ⟨e, he⟩
  · cases rest with
    | nil => exact .inr ⟨_, .missing hi⟩
    | cons b rest =>
      rcases form_or_fails 1 b with ⟨j, hj⟩ | ⟨e, he⟩
      · exact .inl ⟨_, .both hi hj⟩
      · exact .inr ⟨_, .second hi he⟩
  · exact .inr ⟨_, .first he⟩

end Fetch

/-! ## Stores -/

open FirstRow.Sql in
/-- A table has some rows, in the order in which they are read: in its own tree, or in that of the index that is chosen
where rows have no number. -/
inductive Rows (img : Image) (t : Sql.Table) : List (List Datum) → Prop where
  | numbered {levels : Nat} {xs : List Entry} : t.withoutRowid = false → levels ≤ Walk.maxDescents →
      Tree img .table levels t.root xs → Rows img t (xs.map (Entry.row img t))
  | unnumbered {ix : Index} {levels : Nat} {xs : List Entry} : t.withoutRowid = true → Scan.Chosen t t.indexes ix →
      levels ≤ Walk.maxDescents → Tree img .index levels ix.root xs → Rows img t (xs.map (Entry.rowOf img t ix))

section

variable {img : Image} {t : Sql.Table} {rows : List (List Datum)} {d : Disk} {workingDirectory : AbsolutePath}
  {path : String}

/-- The first row is read. -/
theorem Rows.firstRow?_eq (h : Rows img t rows) (hp : img.Proper) (hm : img.isMapped = true → img.Mapped)
    (hstored : ∀ c ∈ t.columns, c.isStored = true) : Scan.firstRow? img t = .ok rows.head? := by
  cases h with
  | numbered hrows hlevels htree => rw [Scan.firstRow?_table hp hm hrows hstored hlevels htree, List.head?_map]
  | unnumbered hrows hchosen hlevels htree => rw [Scan.firstRow?_index hp hm hrows hchosen hlevels htree, List.head?_map]

/-- A row has as many values as the table has columns. -/
theorem Rows.length_eq (h : Rows img t rows) {ds : List Datum} (hds : ds ∈ rows) : ds.length = t.columns.length := by
  cases h with
  | numbered =>
    obtain ⟨x, -, rfl⟩ := List.mem_map.mp hds
    simp [Entry.row]
  | unnumbered =>
    obtain ⟨x, -, rfl⟩ := List.mem_map.mp hds
    simp [Entry.rowOf]

theorem Serves.fetch_cons (h : Serves d workingDirectory path img t) (hstored : ∀ c ∈ t.columns, c.isStored = true)
    {ds : List Datum} {rest : List (List Datum)} (hrows : Rows img t (ds :: rest)) :
    fetch d workingDirectory path = some <$> Fetch.row ds :=
  h.fetch_of_some (hrows.firstRow?_eq h.proper h.mapped hstored)

end

end FirstRow
