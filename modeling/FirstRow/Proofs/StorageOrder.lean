import FirstRow.Proofs.Binary64.Rounds
import FirstRow.Proofs.RowNumbers
import FirstRow.Proofs.Store.Values

/-!
# Columns of tables whose rows have no number

Rows without a number are stored in the order of an index and not in the declared one. `Entry.StoresRow` says which
entries store a row that is given in declared order. `fetch_storage_order` says that reading inverts the order, whatever
the key is: every column has its own value again, or what is declared of it where the record is too short.
-/
namespace FirstRow.Sql

open FirstRow.Store

/-! ## Values and what is stored for them -/

namespace Affinity

/-- What a column of an affinity has stored for a value. In a column of reals an integer stands for the real that it
is. -/
inductive Stores (a : Affinity) : Datum → Datum → Prop where
  | same {v : Datum} : v.settled = v → (a = .real → ∀ n, v ≠ .integer n) → Stores a v v
  | whole {n : Int} {y : Binary64} : a = .real → y.isFinite = true → y.value = n → y ≠ .ofMagnitude true 0 →
      Stores a (.real y) (.integer n)

/-- What is read of a value in a column of an affinity: the nearest real for an integer in a column of reals. -/
inductive Reads (a : Affinity) : Datum → Datum → Prop where
  | same {v : Datum} : (a = .real → ∀ n, v ≠ .integer n) → Reads a v v
  | real {n : Int} {y : Binary64} : a = .real → y.IsNearest n → Reads a (.integer n) (.real y)

variable {a : Affinity} {v s : Datum}

theorem onRead_eq_self (h : a = .real → ∀ n, v ≠ .integer n) : a.onRead v = v := by
  by_cases hreal : a = .real
  · subst hreal
    cases v with
    | integer n => exact absurd rfl (h rfl n)
    | null | real | text | blob => rfl
  · exact onRead_of_ne_real hreal v

/-- No affinity changes a text when it is read. -/
theorem onRead_text (a : Affinity) (bs : List UInt8) : a.onRead (.text bs) = .text bs :=
  onRead_eq_self (by simp)

/-- What is stored for a value is read as that value. -/
theorem Stores.onRead_eq (h : a.Stores v s) (hs : IsBounded s.settled) : a.onRead s.settled = v := by
  cases h with
  | same hsettled hv => rw [hsettled, onRead_eq_self hv]
  | whole hreal hfinite hvalue hzero =>
    have hn := isInt64_iff.mp hs
    rw [hreal]
    exact congrArg Datum.real (Binary64.ofInt_eq hfinite hvalue (by omega) hzero)

theorem reads_onRead (hv : IsBounded v) : a.Reads v (a.onRead v) := by
  by_cases h : ∃ n, a = .real ∧ v = .integer n
  · obtain ⟨n, rfl, rfl⟩ := h
    have hn := isInt64_iff.mp hv
    exact .real rfl (Binary64.ofInt_isNearest (by omega))
  · have hsame : a = .real → ∀ n, v ≠ .integer n := fun hreal n hv => h ⟨n, hreal, hv⟩
    rw [onRead_eq_self hsame]
    exact .same hsame

end Affinity
end FirstRow.Sql

namespace FirstRow.Store

open FirstRow.Sql

namespace Entry

/-- An entry stores a row, given in declared order: every field has the value of the column that the order has at its
place. Columns behind the last field are not stored. -/
def StoresRow (img : Image) (D : TableDeclaration) (order : List (Option Nat)) (row : List Datum) (x : Entry) : Prop :=
  ∀ (p i : Nat) content c, x.contents[p]? = some content → order[p]? = some (some i) → D.columns[i]? = some c →
    ∃ v s, row[i]? = some v ∧ (D.affinity c).Stores v s ∧ Written img.encoding s content

variable {img : Image} {D : TableDeclaration} {order : List (Option Nat)} {row : List Datum} {x : Entry}

/-- A stored column has its own value. -/
theorem StoresRow.columnAt_eq (h : x.StoresRow img D order row) (hx : x.IsRecord) {p i : Nat} {c : ColumnDeclaration}
    {column : Column} (hp : p < x.contents.length) (horder : order[p]? = some (some i)) (hc : D.columns[i]? = some c)
    (hcolumn : column.type.affinity = D.affinity c) : row[i]? = some (x.columnAt img .index p column) := by
  have hcontent := List.getElem?_eq_getElem hp
  obtain ⟨v, s, hv, hstores, hwritten⟩ := h p i _ c hcontent horder hc
  have hvalue : x.value? img .index p = some s.settled := value?_of_written hcontent hwritten nofun
  have hbounded := isBounded_value? hx hvalue
  rw [columnAt, hvalue, Option.getD_some, hcolumn, hv, hstores.onRead_eq (isBounded_value? hx hvalue)]

/-- The first place of a column in an order. -/
theorem getElem?_of_findIdx? {columns : List IndexColumn} {i p : Nat}
    (h : columns.findIdx? (·.column = some i) = some p) : (columns.map IndexColumn.column)[p]? = some (some i) := by
  obtain ⟨hp, hcolumn, -⟩ := List.findIdx?_eq_some_iff_getElem.mp h
  rw [List.getElem?_map, List.getElem?_eq_getElem hp, Option.map_some]
  exact congrArg some (by simpa using hcolumn)

/-- The row of an entry that stores a row has every value of it that is in the record, and others as they are
declared. -/
theorem StoresRow.rowOf_eq {t : Table} {ix : Index} (h : x.StoresRow img D (ix.columns.map IndexColumn.column) row)
    (hx : x.IsRecord) (ht : t.DeclaredAs D) {i p : Nat} {c : ColumnDeclaration} (hc : D.columns[i]? = some c)
    (hp : ix.columns.findIdx? (·.column = some i) = some p) :
    (p < x.contents.length → (x.rowOf img t ix)[i]? = row[i]?) ∧
      (x.contents.length ≤ p → ∃ v w, (x.rowOf img t ix)[i]? = some w ∧ (D.affinity c).Reads v w ∧
        c.Has img.encoding (D.affinity c) t.lookedUp v) := by
  obtain ⟨hlt, -⟩ := List.getElem?_eq_some_iff.mp hc
  rw [← ht.length_eq] at hlt
  have hcolumn := List.getElem?_eq_getElem hlt
  have hsettled := ht.column i c _ hc hcolumn
  have hrow : (x.rowOf img t ix)[i]? = some (x.columnAt img .index p t.columns[i]) := by
    rw [rowOf, List.getElem?_mapIdx, hcolumn, Option.map_some, hp]
  refine ⟨fun hstored => ?_, fun hlacking => ?_⟩
  · rw [hrow, h.columnAt_eq hx hstored (getElem?_of_findIdx? hp) hc hsettled.affinity]
  · have hnone : x.value? img .index p = none := by
      rw [value?, List.getElem?_eq_none hlacking, Option.map_none]
    obtain ⟨hhas, hbounded⟩ := hsettled.has_missing img.encoding
    refine ⟨_, _, hrow, ?_, hhas⟩
    rw [columnAt, hnone, Option.getD_none, hsettled.affinity]
    exact Affinity.reads_onRead hbounded

end Entry

namespace Scan

variable {t : Table} {ix : Index}

/-- Whether whole rows can be read from the index of the primary key is a question of its collations. -/
theorem isUsable_of_holdsRows {ks : List Nat} (h : ix.HoldsRows t.columns ks)
    (hcollations : ∀ c ∈ ix.columns, knownCollations.any (Text.Octet.spells · c.collation) = true) :
    isUsable t ix = true := by
  simp only [isUsable, Bool.and_eq_true, List.all_eq_true]
  refine ⟨⟨by simp [h.isPartial], fun i hi => ?_⟩, hcollations⟩
  rw [h.held]
  exact List.elem_eq_true_of_mem hi

/-- An index from which whole rows are read has a place for every stored column. -/
theorem Chosen.exists_findIdx? {D : TableDeclaration} (h : Chosen t t.indexes ix) (ht : t.KeyedAs D) {i : Nat} {c : Column}
    (hc : t.columns[i]? = some c) (hstored : c.isStored = true) :
    ∃ p, ix.columns.findIdx? (·.column = some i) = some p := by
  have husable := h.usable
  simp only [isUsable, Bool.and_eq_true, List.all_eq_true] at husable
  have hheld : i ∈ ix.held := by
    have := husable.1.2 i (List.mem_range.mpr (List.getElem?_eq_some_iff.mp hc).1)
    simpa using this
  obtain ⟨column, hcolumn, hnumber⟩ := List.mem_map.mp (ht.has ix h.mem i hheld c hc hstored)
  exact Option.isSome_iff_exists.mp (List.findIdx?_isSome.trans (List.any_eq_true.mpr ⟨column, hcolumn, by simpa using hnumber⟩))

end Scan
end FirstRow.Store

namespace FirstRow

open FirstRow.Sql FirstRow.Store

section

variable {img : Image} {d : Disk} {workingDirectory : AbsolutePath} {path : String} {content : ByteArray}
  {xs : List Entry} {cat : Catalog}

/-- The rows of a table without row numbers are stored in the order of its primary key: the columns of the key first, in
key order, then the others in declared order, which is a permutation of all columns, whatever distinct columns the key
has. What is fetched of a row, given in declared order and stored in the order of the index that is read, has the value
of every column in its declared place. Columns that the record lacks have what is declared of them. No column stands for
a row number. -/
theorem fetch_storage_order (hnul : path.toList.contains '\x00' = false)
    (hleads : Leads d workingDirectory (Text.Utf8.ofString path) content img.isWritable)
    (h : Database content img xs cat) {e : Entry}
    (hunique : ∀ y ∈ xs, (y.description img).IsOf "table" → (y.description img).IsNamed servedName → y = e)
    {t : Table} (ht : cat.relation? servedName = some (.table t)) (hrows : t.withoutRowid = true)
    (hstored : ∀ c ∈ t.columns, c.isStored = true) (hcolumns : 2 ≤ t.columns.length) :
    ∃ D, (e.description img).declaration? = some D ∧ D.withoutRowid = true ∧ 2 ≤ D.columns.length ∧
      t.rowidColumn = none ∧
      (∀ ks descending, D.keys = [⟨ks.map some, descending⟩] → ks.Nodup →
        let order := ks ++ (List.range D.columns.length).filter (· ∉ ks)
        order.Perm (List.range D.columns.length) ∧
          (∃ ix ∈ t.indexes, ix.origin = .primaryKey) ∧
          ∀ ix ∈ t.indexes, ix.origin = .primaryKey → ix.columns.map IndexColumn.column = order.map some ∧
            ((∀ c ∈ ix.columns, Scan.knownCollations.any (Text.Octet.spells · c.collation) = true) →
              ∃ chosen, Scan.Chosen t t.indexes chosen)) ∧
      ∀ ix, Scan.Chosen t t.indexes ix → ∀ levels x rest row, levels ≤ Walk.maxDescents →
        Tree img .index levels ix.root (x :: rest) → row.length = D.columns.length →
        x.StoresRow img D (ix.columns.map IndexColumn.column) row →
        ∃ values, fetch d workingDirectory path = some <$> Fetch.row values ∧ values.length = D.columns.length ∧
          (ix.columns.length ≤ x.contents.length → values = row) ∧ ∀ i c, D.columns[i]? = some c → ∃ p, ix.columns.findIdx? (·.column = some i) = some p ∧
            (p < x.contents.length → values[i]? = row[i]?) ∧
            (x.contents.length ≤ p → ∃ v w, values[i]? = some w ∧ (D.affinity c).Reads v w ∧
              c.Has img.encoding (D.affinity c) t.lookedUp v) := by
  obtain ⟨r, hr, htype, hname, D, hsql, hdeclared, hkeyed⟩ := h.catalog.keyedAs
    (show Text.Octet.spells "sqlite_schema" servedName = false by decide)
    (show Text.Octet.same Catalog.schemaName servedName = false by decide) ht
  obtain ⟨y, hy, rfl⟩ := List.mem_map.mp hr
  obtain rfl := hunique y hy htype hname
  have hlength := hdeclared.length_eq
  refine ⟨D, hsql, hdeclared.withoutRowid.symm.trans hrows, hlength ▸ hcolumns, hkeyed.rowidColumn hrows,
    fun ks descending hkeys hnodup => ?_, fun ix hix levels x rest row hlevels htree hrow hstores => ?_⟩
  · have hlt (k : Nat) (hk : k ∈ ks) : k < D.columns.length :=
      TableDeclaration.namesColumns hsql _ (hkeys ▸ List.mem_singleton_self _) k (List.mem_map_of_mem hk)
    obtain ⟨hprimary, hall⟩ := hkeyed.key hrows ks descending hkeys hnodup
    refine ⟨Key.perm_range hnodup hlt, hprimary, fun ix hix horigin => ⟨?_, fun hcollations => ?_⟩⟩
    · obtain ⟨key, hkey, hcolumns⟩ := (hall ix hix horigin).columns
      rw [hcolumns, Key.storageOrder_columns hkey, Key.restOf_eq hstored, hlength]
    · exact Scan.Chosen.exists_of_usable ⟨ix, hix, Scan.isUsable_of_holdsRows (hall ix hix horigin) hcollations⟩
  · have hproper := h.header.proper
    obtain ⟨c, -, hrecord, -⟩ := Walk.first?_cons hproper htree hlevels
    have hfirst := Scan.firstRow?_index hproper h.mapped hrows hix hlevels htree
    have hcolumn (i c) (hc : D.columns[i]? = some c) :
        ∃ p, ix.columns.findIdx? (·.column = some i) = some p ∧ p < ix.columns.length := by
      obtain ⟨hlt, -⟩ := List.getElem?_eq_some_iff.mp hc
      rw [← hlength] at hlt
      obtain ⟨p, hp⟩ := hix.exists_findIdx? hkeyed (List.getElem?_eq_getElem hlt) (hstored _ (List.getElem_mem _))
      exact ⟨p, hp, (List.findIdx?_eq_some_iff_getElem.mp hp).1⟩
    have hvalues : (x.rowOf img t ix).length = D.columns.length := by rw [Entry.rowOf, List.length_mapIdx, hlength]
    refine ⟨x.rowOf img t ix, (h.serves hnul hleads ht).fetch_of_some hfirst, hvalues, fun hfull => ?_, fun i c hc => ?_⟩
    · refine List.ext_getElem? fun i => ?_
      by_cases hi : i < D.columns.length
      · have hc := List.getElem?_eq_getElem hi
        obtain ⟨p, hp, hlt⟩ := hcolumn i _ hc
        exact (hstores.rowOf_eq hrecord hdeclared hc hp).1 (by omega)
      · rw [List.getElem?_eq_none (by omega), List.getElem?_eq_none (by omega)]
    · obtain ⟨p, hp, -⟩ := hcolumn i c hc
      exact ⟨p, hp, hstores.rowOf_eq hrecord hdeclared hc hp⟩

end

/-! ## A key that names a late column first -/

namespace Reordered

/-- The third column was added later. -/
def declaration : Entry :=
  Small.object 1 "table" "test" 2 "CREATE TABLE test(id,k,data DEFAULT 7,PRIMARY KEY(k,id))WITHOUT ROWID"

/-- The record of a row: the columns of the key in key order and nothing else. -/
def entry : Entry :=
  Small.entry 0 [Small.text "z", ⟨1, 1, [5]⟩]

def octets : List UInt8 :=
  Small.leaf (Small.header 2) .table [declaration] ++ Small.leaf [] .index [entry]

def img : Image := Small.image octets 2

def catalog : Catalog :=
  ((Catalog.Sum.initial img).catalog.add img (declaration.description img)).1

/-- The file has two pages, each of them a leaf. -/
theorem pages : octets.length = 2 * 512 ∧ Leaf img .table 1 [declaration] ∧ Leaf img .index 2 [entry] := by
  have hfile : octets.length = 2 * 512 ∧ Small.HasEntries octets 1 .table [declaration] ∧
      Small.HasEntries octets 2 .index [entry] := by decide +kernel
  obtain ⟨hlength, hschema, hindex⟩ := hfile
  exact ⟨hlength, hschema.leaf hlength (by decide), hindex.leaf hlength (by decide)⟩

set_option synthInstance.maxSize 400 in
theorem catalog_spec :
    ((Catalog.Sum.initial img).catalog.add img (declaration.description img)).2 = none ∧
      ((catalog.relation? servedName).bind Relation.table?).map (fun t =>
        (t.withoutRowid, t.columns.map (·.isStored), t.indexes.map fun ix =>
          (ix.root, Scan.isUsable t ix, ix.columns.map IndexColumn.column))) =
        some (true, [true, true, true], [(2, true, [some 1, some 0, some 2])]) := by
  decide +kernel

/-- The digits of an expression that is an integer. -/
def digits? : Expr → Option (List UInt8)
  | .integer ds => some ds
  | _ => none

theorem eq_of_digits? {e : Expr} {ds : List UInt8} (h : digits? e = some ds) : e = .integer ds := by
  unfold digits? at h
  split at h
  · exact congrArg Expr.integer (Option.some.inj h)
  · cases h

set_option synthInstance.maxSize 400 in
/-- The statement declares the key on the second column and the first one, and seven as the default of the third. -/
theorem declaration_spec : ((declaration.description img).declaration?).map (fun D =>
    (D.keys, D.columns.map fun c => (D.affinity c, c.computed.isNone, c.default.bind digits?))) =
      some ([⟨[some 1, some 0], false⟩], [(.blob, true, none), (.blob, true, none), (.blob, true, some [0x37])]) := by
  decide +kernel

theorem database : Database img.content img [declaration] catalog where
  header := Small.fileHeader (by decide) (by decide) pages.1 (by decide)
  mapped h := by cases h
  schema := ⟨0, by decide, pages.2.1⟩
  catalog := .cons (Prod.ext rfl catalog_spec.1) .nil

/-- The row in declared order. The third column is not stored. -/
def row : List Datum := [.integer 5, .text [0x7A], .null]

theorem storesRow {D : TableDeclaration} (haffinity : D.columns.map D.affinity = [.blob, .blob, .blob]) :
    entry.StoresRow img D [some 1, some 0, some 2] row := by
  intro p i content c hcontent hi hc
  have hblob : D.affinity c = .blob := by
    have hmem := List.mem_map_of_mem (List.mem_of_getElem? hc) (f := D.affinity)
    rw [haffinity] at hmem
    simpa using hmem
  rw [hblob]
  have hp : p < 2 := (List.getElem?_eq_some_iff.mp hcontent).1
  interval_cases p
  · cases hcontent
    cases hi
    exact ⟨_, _, rfl, .same rfl nofun, .utf8 [0x7A] rfl⟩
  · cases hcontent
    cases hi
    have hin : ((1, 1) : Nat × Nat) ∈ [(1, 1), (2, 2), (3, 3), (4, 4), (5, 6), (6, 8)] := by decide
    exact ⟨_, _, rfl, .same rfl nofun, .integer hin (by decide) (by decide)⟩

end Reordered

/-- The record `('z', 5)` is read as the row `(5, 'z', 7)`. -/
theorem fetch_storage_order_reordered : ∃ values,
    fetch (Small.disk Reordered.img) [] "/t" = some <$> Fetch.row values ∧
      values = [.integer 5, .text [0x7A], .integer 7] ∧
      fetch (Small.disk Reordered.img) [] "/t" = .ok (some ⟨.integer 5, .string "z"⟩) := by
  obtain ⟨t, ht, hspec⟩ := Catalog.exists_table Reordered.catalog_spec.2
  simp only [Prod.mk.injEq] at hspec
  obtain ⟨hrows, hcolumns, hindexes⟩ := hspec
  have hlength : t.columns.length = 3 := by simpa using congrArg List.length hcolumns
  have hstored : ∀ c ∈ t.columns, c.isStored = true := fun c hc => by
    have hmem := List.mem_map_of_mem hc (f := Column.isStored)
    rw [hcolumns] at hmem
    simpa using hmem
  obtain ⟨ix, hix⟩ : ∃ ix, t.indexes = [ix] := List.length_eq_one_iff.mp (by simpa using congrArg List.length hindexes)
  simp only [hix, List.map_cons, List.map_nil, List.cons.injEq, Prod.mk.injEq, and_true] at hindexes
  obtain ⟨hroot, husable, horder⟩ := hindexes
  obtain ⟨D, hsql, -, -, -, -, hread⟩ := fetch_storage_order Small.path_nul (Small.leads rfl) Reordered.database
    (fun y hy _ _ => List.mem_singleton.mp hy) ht hrows hstored (by omega)
  have hspec := Reordered.declaration_spec
  simp only [hsql, Option.map_some, Option.some.injEq, Prod.mk.injEq] at hspec
  obtain ⟨-, hspec⟩ := hspec
  have haffinity : D.columns.map D.affinity = [.blob, .blob, .blob] := by
    have := congrArg (List.map Prod.fst) hspec
    simpa [Function.comp_def] using this
  have hchosen : Scan.Chosen t t.indexes ix := ⟨husable, [], [], hix, by simp, by simp⟩
  have hcount : D.columns.length = 3 := by simpa using congrArg List.length haffinity
  obtain ⟨values, hfetch, hvalues, -, hcolumn⟩ := hread ix hchosen 0 Reordered.entry [] Reordered.row (Nat.zero_le _)
    (hroot ▸ Reordered.pages.2.2) hcount.symm (by rw [horder]; exact Reordered.storesRow haffinity)
  have hplace (i p : Nat) (hp : ix.columns.findIdx? (·.column = some i) = some p) :
      [some 1, some 0, some 2].findIdx? (· = some i) = some p := by
    rw [← horder, List.findIdx?_map]
    exact hp
  have hone (i) (hi : i < 2) : values[i]? = Reordered.row[i]? := by
    obtain ⟨p, hp, hstored, -⟩ := hcolumn i _ (List.getElem?_eq_getElem (by omega))
    refine hstored ?_
    have := hplace i p hp
    interval_cases i <;> cases this <;> decide
  have hthird : values[2]? = some (.integer 7) := by
    obtain ⟨c, hc, hdeclared⟩ := TableDeclaration.exists_column_of_map hspec (i := 2) rfl
    obtain ⟨p, hp, -, hlacking⟩ := hcolumn 2 c hc
    obtain rfl : 2 = p := Option.some.inj (hplace 2 p hp)
    obtain ⟨v, w, hw, hreads, hhas⟩ := hlacking (by decide)
    have hv := hhas.eq
    simp only [Prod.mk.injEq, Option.isNone_iff_eq_none] at hdeclared
    obtain ⟨hblob, hplain, hdefault⟩ := hdeclared
    obtain ⟨e, he, hinteger⟩ := Option.bind_eq_some_iff.mp hdefault
    obtain rfl := Reordered.eq_of_digits? hinteger
    rw [ColumnDeclaration.expression?, hplain] at hv
    simp only [he, hblob] at hv
    subst hv
    cases hreads with
    | same => exact hw
    | real hreal => rw [hblob] at hreal; cases hreal
  have hrow : values = [.integer 5, .text [0x7A], .integer 7] := by
    refine List.ext_getElem? fun i => ?_
    by_cases hi : i < 3
    · interval_cases i
      · exact hone 0 (by decide)
      · exact hone 1 (by decide)
      · exact hthird
    · rw [List.getElem?_eq_none (by omega), List.getElem?_eq_none (by simpa using hi)]
  exact ⟨values, hfetch, hrow, by rw [hfetch, hrow]; rfl⟩

end FirstRow
