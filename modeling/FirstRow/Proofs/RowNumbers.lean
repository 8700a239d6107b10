import FirstRow.Proofs.Binary64.Nearest
import FirstRow.Proofs.Fetch
import FirstRow.Proofs.Sql.Default

/-!
# Columns of tables whose rows have numbers

Which values are served of the first row follows from how its table is declared: the number of the row where a column
stands for it, else the field of the record at the place of the column, and for a column that the record lacks what the
declaration says of it. `TableDeclaration.Shows` puts this in rules, and `fetch_declared_columns` says that they decide.
-/
namespace FirstRow.Sql

open FirstRow.Store

/-! ## Columns that a record lacks -/

namespace ColumnDeclaration

/-- The expression that says which value a column has where a record lacks it: its default, or in a computed column its
expression with the names looked up. -/
def expression? (c : ColumnDeclaration) (look : Expr → Expr) : Option Expr :=
  match c.computed with
  | some (t, _) => some (look (Draft.computing t).expr)
  | none => c.default

/-- The value of a column of an affinity where a record lacks it. Literals are kept under the affinity, and what is no
literal with signs and casts has no value. -/
inductive Has (c : ColumnDeclaration) (enc : Encoding) (a : Affinity) (look : Expr → Expr) : Datum → Prop where
  | nothing : c.expression? look = none → Has c enc a look .null
  | literal {e : Expr} {v : Datum} : c.expression? look = some e → Default.Literal e v →
      Has c enc a look (Default.kept a e v)
  | other {e : Expr} : c.expression? look = some e → (∀ v, ¬Default.Literal e v) → Default.HasValue e →
      Has c enc a look (defaultValue enc a e)
  | valueless {e : Expr} : c.expression? look = some e → ¬Default.HasValue e → Has c enc a look .null

variable {c : ColumnDeclaration} {enc : Encoding} {a : Affinity} {look : Expr → Expr}

/-- The value of an expression is one of these. -/
theorem has_defaultValue {e : Expr} (h : c.expression? look = some e) : c.Has enc a look (defaultValue enc a e) := by
  by_cases hliteral : ∃ v, Default.Literal e v
  · obtain ⟨v, hv⟩ := hliteral
    rw [hv.defaultValue_eq]
    exact .literal h hv
  · by_cases hvalue : Default.HasValue e
    · exact .other h (fun v hv => hliteral ⟨v, hv⟩) hvalue
    · rw [Default.defaultValue_eq_null hvalue]
      exact .valueless h hvalue

/-- A column has one value where a record lacks it. -/
theorem Has.eq {v : Datum} (h : c.Has enc a look v) :
    v = ((c.expression? look).map (defaultValue enc a)).getD .null := by
  cases h with
  | nothing h => rw [h, Option.map_none, Option.getD_none]
  | literal h hv => rw [h, Option.map_some, Option.getD_some, hv.defaultValue_eq]
  | other h => rw [h, Option.map_some, Option.getD_some]
  | valueless h hv => rw [h, Option.map_some, Option.getD_some, Default.defaultValue_eq_null hv]

end ColumnDeclaration

namespace Column.SettledAs

variable {column : Column} {c : ColumnDeclaration} {a : Affinity} {look : Expr → Expr}

theorem value_eq (h : column.SettledAs c a look) : column.value = c.expression? look := by
  unfold ColumnDeclaration.expression?
  split
  · next t storage hcomputed => exact (h.computed t storage hcomputed).2.2
  · next hplain => exact (h.plain hplain).2

/-- What a column has where a record lacks it, and that is no integer of more than 64 bits. -/
theorem has_missing (h : column.SettledAs c a look) (enc : Encoding) :
    c.Has enc a look (column.missing enc) ∧ IsBounded (column.missing enc) := by
  have hvalue := h.value_eq
  unfold Column.missing
  rw [h.affinity]
  cases hcolumn : column.value with
  | none => exact ⟨.nothing (hvalue.symm.trans hcolumn), trivial⟩
  | some e => exact ⟨ColumnDeclaration.has_defaultValue (hvalue.symm.trans hcolumn), Default.isBounded_defaultValue enc a e⟩

end Column.SettledAs

/-! ## Columns of a record -/

/-- Integers of up to eight octets have 64 bits. -/
theorem isInt64_twosComplement {bs : List UInt8} (h : bs.length ≤ 8) : isInt64 (twosComplement bs) = true := by
  have hlt := bigEndian_lt bs
  have hsize : 0x100 ^ bs.length ≤ 0x100 ^ 8 := Nat.pow_le_pow_right (by decide) h
  have hpow : Nat.pow 0x100 bs.length = 0x100 ^ bs.length := rfl
  rw [isInt64_iff, twosComplement]
  simp only [hpow]
  split <;> omega

/-- A field of a record that is an integer has 64 bits. -/
theorem isBounded_value? {img : Image} {kind : TreeKind} {x : Entry} (h : x.IsRecord) {k : Nat} {v : Datum}
    (hv : x.value? img kind k = some v) : IsBounded v := by
  obtain ⟨c, hc, rfl⟩ := Option.map_eq_some_iff.mp hv
  have hsize := h.size c (List.mem_of_getElem? hc)
  unfold Datum.ofSerial
  split
  · trivial
  split
  · next htype =>
    refine isInt64_twosComplement ?_
    rw [hsize]
    generalize c.serialType = type at htype
    interval_cases type <;> decide
  split
  · simp only
    split <;> trivial
  split
  · rfl
  split
  · rfl
  split
  · trivial
  split <;> trivial

namespace TableDeclaration

/-- The value of a column of an entry: the field at its place, or what the column has where the record lacks it. -/
inductive Obtains (D : TableDeclaration) (img : Image) (look : Expr → Expr) (x : Entry) (i : Nat) (c : ColumnDeclaration) :
    Datum → Prop where
  | field {v : Datum} : x.value? img .table i = some v → Obtains D img look x i c v
  | lacking {v : Datum} : x.contents.length ≤ i → c.Has img.encoding (D.affinity c) look v → Obtains D img look x i c v

/-- What is shown of a column of an entry. A column that stands for the row number shows that number, whatever the record
holds there. A column of reals shows the nearest real for an integer. -/
inductive Shows (D : TableDeclaration) (img : Image) (look : Expr → Expr) (x : Entry) (i : Nat) (c : ColumnDeclaration) :
    Datum → Prop where
  | rowid : D.IsAlias i → Shows D img look x i c (.integer x.rowid)
  | real {n : Int} {y : Binary64} : ¬D.IsAlias i → D.affinity c = .real → D.Obtains img look x i c (.integer n) →
      y.IsNearest n → Shows D img look x i c (.real y)
  | other {v : Datum} : ¬D.IsAlias i → (D.affinity c = .real → ∀ n, v ≠ .integer n) → D.Obtains img look x i c v →
      Shows D img look x i c v

variable {D : TableDeclaration} {img : Image} {look : Expr → Expr} {x : Entry} {i : Nat} {c : ColumnDeclaration}

/-- What is read of a value that a column obtains is shown. -/
theorem Obtains.shows {v : Datum} (h : D.Obtains img look x i c v) (hi : ¬D.IsAlias i) (hv : IsBounded v) :
    D.Shows img look x i c ((D.affinity c).onRead v) := by
  by_cases hreal : D.affinity c = .real
  · cases v with
    | integer n =>
      rw [hreal]
      refine .real hi hreal h (Binary64.ofInt_isNearest ?_)
      have hn := isInt64_iff.mp hv
      omega
    | null | real | text | blob =>
      rw [hreal]
      exact .other hi (fun _ => nofun) h
  · have hread : (D.affinity c).onRead v = v := by
      cases ha : D.affinity c with
      | real => exact absurd ha hreal
      | blob | text | numeric | integer => rfl
    rw [hread]
    exact .other hi (fun h => absurd h hreal) h

/-- What is known of all columns in order is known of each of them. -/
theorem exists_column_of_map {α : Type} {f : ColumnDeclaration → α} {vs : List α} (h : D.columns.map f = vs) {v : α}
    (hv : vs[i]? = some v) : ∃ c, D.columns[i]? = some c ∧ f c = v := by
  rwa [← h, List.getElem?_map, Option.map_eq_some_iff] at hv

/-- The row of an entry shows every column as it is declared. -/
theorem shows_row {t : Table} (ht : t.DeclaredAs D) (hrows : t.withoutRowid = false) (hx : x.IsRecord)
    (hc : D.columns[i]? = some c) : ∃ v, (x.row img t)[i]? = some v ∧ D.Shows img t.lookedUp x i c v := by
  obtain ⟨hlt, -⟩ := List.getElem?_eq_some_iff.mp hc
  have hcolumn := List.getElem?_eq_getElem (show i < t.columns.length by rw [ht.length_eq]; exact hlt)
  have hsettled := ht.column i c _ hc hcolumn
  refine ⟨_, by rw [Entry.row, List.getElem?_mapIdx, hcolumn, Option.map_some], ?_⟩
  by_cases halias : D.IsAlias i
  · rw [if_pos ((ht.rowidColumn hrows i).mpr halias)]
    exact .rowid halias
  · rw [if_neg fun h => halias ((ht.rowidColumn hrows i).mp h), Entry.columnAt, hsettled.affinity]
    cases hfield : x.value? img .table i with
    | some v => exact Obtains.shows (.field hfield) halias (isBounded_value? hx hfield)
    | none =>
      have hlength : x.contents.length ≤ i := by
        rwa [Entry.value?, Option.map_eq_none_iff, List.getElem?_eq_none_iff] at hfield
      obtain ⟨hhas, hbounded⟩ := hsettled.has_missing img.encoding
      exact Obtains.shows (.lacking hlength hhas) halias hbounded

end TableDeclaration
end FirstRow.Sql

namespace FirstRow

open FirstRow.Sql FirstRow.Store

section

variable {img : Image} {d : Disk} {workingDirectory : AbsolutePath} {path : String} {content : ByteArray}
  {xs : List Entry} {cat : Catalog}

/-- What is fetched of a table whose rows have numbers and whose columns are all stored shows every column of the first
row as the statement of the table declares it: one that stands for the row number by that number, and every other one by
its field or, where the record lacks it, by its declaration. -/
theorem fetch_declared_columns (hnul : path.toList.contains '\x00' = false)
    (hleads : Leads d workingDirectory (Text.Utf8.ofString path) content img.isWritable)
    (h : Database content img xs cat) {e : Entry}
    (hunique : ∀ y ∈ xs, (y.description img).IsOf "table" → (y.description img).IsNamed servedName → y = e)
    {t : Table} (ht : cat.relation? servedName = some (.table t)) (hrows : t.withoutRowid = false)
    (hstored : ∀ c ∈ t.columns, c.isStored = true) (hcolumns : 2 ≤ t.columns.length) {levels : Nat} {x : Entry}
    {rest : List Entry} (hlevels : levels ≤ Walk.maxDescents) (htree : Tree img .table levels t.root (x :: rest)) :
    ∃ D values, (e.description img).declaration? = some D ∧ D.withoutRowid = false ∧ 2 ≤ D.columns.length ∧
      fetch d workingDirectory path = some <$> Fetch.row values ∧ values.length = D.columns.length ∧
      ∀ i c, D.columns[i]? = some c → ∃ v, values[i]? = some v ∧ D.Shows img t.lookedUp x i c v := by
  obtain ⟨r, hr, htype, hname, D, hsql, hdeclared⟩ := h.catalog.declaredAs
    (show Text.Octet.spells "sqlite_schema" servedName = false by decide)
    (show Text.Octet.same Catalog.schemaName servedName = false by decide) ht
  obtain ⟨y, hy, rfl⟩ := List.mem_map.mp hr
  obtain rfl := hunique y hy htype hname
  obtain ⟨-, -, hrecord, -⟩ := Walk.first?_cons h.header.proper htree hlevels
  have hfirst := Scan.firstRow?_table h.header.proper h.mapped hrows hstored hlevels htree
  refine ⟨D, x.row img t, hsql, hdeclared.withoutRowid.symm.trans hrows, hdeclared.length_eq ▸ hcolumns,
    (h.serves hnul hleads ht).fetch_of_some hfirst, ?_, fun i c hc => ?_⟩
  · rw [← hdeclared.length_eq, Entry.row, List.length_mapIdx]
  · exact TableDeclaration.shows_row hdeclared hrows hrecord hc

end

namespace Numbered

/-- The statement declares a key on the first column, whose type is spelled like `INTEGER`. -/
theorem declaration_spec : ((declaration.description img).declaration?).map (fun D => (D.keys, D.columns.map (·.type))) =
    some ([⟨[some 0], false⟩], [Text.Utf8.ofString "integer", Text.Utf8.ofString "text"]) := by
  decide +kernel

end Numbered

/-- The first column shows the number three, where the record holds a null. -/
theorem fetch_declared_columns_three : ∃ D values,
    (Numbered.declaration.description Numbered.img).declaration? = some D ∧ D.IsAlias 0 ∧
      fetch (Small.disk Numbered.img) [] "/t" = some <$> Fetch.row values ∧ values[0]? = some (.integer 3) := by
  obtain ⟨t, ht, hroot, hrows, hstored, hvalues⟩ := Numbered.table_spec
  have hcolumns : 2 ≤ t.columns.length := by
    have hlength := congrArg List.length (List.cons.inj hvalues).1
    rw [Entry.row, List.length_mapIdx] at hlength
    exact Nat.le_of_eq hlength.symm
  obtain ⟨D, values, hsql, -, -, hfetch, -, hshows⟩ := fetch_declared_columns Small.path_nul Numbered.leads
    Numbered.database (fun y hy _ _ => List.mem_singleton.mp hy) ht hrows hstored hcolumns (Nat.zero_le _)
    (show Tree Numbered.img .table 0 t.root _ from hroot ▸ Numbered.table)
  have hspec := Numbered.declaration_spec
  simp only [hsql, Option.map_some, Option.some.injEq, Prod.mk.injEq] at hspec
  obtain ⟨hkeys, htypes⟩ := hspec
  obtain ⟨c, hc, htype⟩ := TableDeclaration.exists_column_of_map htypes (i := 0) rfl
  have halias : D.IsAlias 0 := ⟨hkeys, c, hc, htype ▸ .inl (by decide)⟩
  obtain ⟨v, hv, hshown⟩ := hshows 0 c hc
  refine ⟨D, values, hsql, halias, hfetch, ?_⟩
  cases hshown with
  | rowid => exact hv
  | real hi => exact absurd halias hi
  | other hi => exact absurd halias hi

/-! ## A computed column -/

namespace Computed

def declaration : Entry :=
  Small.object 1 "table" "test" 2 "CREATE TABLE test(id,data AS (5)STORED)"

/-- A row that lacks the second column. -/
def row : Entry :=
  Small.entry 9 [Small.text "a"]

def octets : List UInt8 :=
  Small.leaf (Small.header 2) .table [declaration] ++ Small.leaf [] .table [row]

def img : Image := Small.image octets 2

def catalog : Catalog :=
  ((Catalog.Sum.initial img).catalog.add img (declaration.description img)).1

/-- The file has two pages, each of them a leaf. -/
theorem pages : octets.length = 2 * 512 ∧ Leaf img .table 1 [declaration] ∧ Leaf img .table 2 [row] := by
  have hfile : octets.length = 2 * 512 ∧ Small.HasEntries octets 1 .table [declaration] ∧
      Small.HasEntries octets 2 .table [row] := by decide +kernel
  obtain ⟨hlength, hschema, hrow⟩ := hfile
  exact ⟨hlength, hschema.leaf hlength (by decide), hrow.leaf hlength (by decide)⟩

theorem catalog_spec : ((Catalog.Sum.initial img).catalog.add img (declaration.description img)).2 = none ∧
    ((catalog.relation? servedName).bind Relation.table?).map (fun t =>
      (t.root, t.withoutRowid, t.columns.all (·.isStored), row.row img t)) =
      some (2, false, true, [.text [0x61], .integer 5]) := by
  decide +kernel

/-- The statement declares no key and no defaults. -/
theorem declaration_spec : ((declaration.description img).declaration?).map (fun D =>
    (D.keys, D.columns.map fun c => c.default.isNone)) = some ([], [true, true]) := by
  decide +kernel

theorem database : Database img.content img [declaration] catalog where
  header := Small.fileHeader (by decide) (by decide) pages.1 (by decide)
  mapped h := by cases h
  schema := ⟨0, by decide, pages.2.1⟩
  catalog := .cons (Prod.ext rfl catalog_spec.1) .nil

end Computed

/-- Not every column without a default shows a null where the record lacks it: a computed column that is stored shows what
its expression says. -/
theorem computed_fetched : ∃ t D c, Computed.catalog.relation? servedName = some (.table t) ∧ t.withoutRowid = false ∧
    (∀ column ∈ t.columns, column.isStored = true) ∧
    (Computed.declaration.description Computed.img).declaration? = some D ∧ D.columns.length = 2 ∧
    D.columns[1]? = some c ∧ ¬D.IsAlias 1 ∧ c.default.isNone = true ∧
    Tree Computed.img .table 0 t.root [Computed.row] ∧ Computed.row.contents.length = 1 ∧
    Database Computed.img.content Computed.img [Computed.declaration] Computed.catalog ∧
    fetch (Small.disk Computed.img) [] "/t" = .ok (some ⟨.string "a", .integer 5⟩) := by
  obtain ⟨t, ht, hspec⟩ := Catalog.exists_table Computed.catalog_spec.2
  simp only [Prod.mk.injEq, List.all_eq_true] at hspec
  obtain ⟨hroot, hrows, hstored, hrow⟩ := hspec
  obtain ⟨D, hD, hdeclared⟩ := Option.map_eq_some_iff.mp Computed.declaration_spec
  obtain ⟨hkeys, hdefaults⟩ := Prod.mk.inj hdeclared
  obtain ⟨c, hc, hnone⟩ := TableDeclaration.exists_column_of_map hdefaults (i := 1) rfl
  have htree : Tree Computed.img .table 0 t.root [Computed.row] := hroot ▸ Computed.pages.2.2
  have hfirst := Scan.firstRow?_table Computed.database.header.proper Computed.database.mapped hrows hstored
    (Nat.zero_le _) htree
  refine ⟨t, D, c, ht, hrows, hstored, hD, by simpa using congrArg List.length hdefaults, hc, fun halias => ?_, hnone, htree,
    rfl, Computed.database, ?_⟩
  · have hkey := halias.1
    rw [TableDeclaration.KeyOn, hkeys] at hkey
    cases hkey
  · rw [(Computed.database.serves Small.path_nul (Small.leads rfl) ht).fetch_of_some hfirst, hrow]
    rfl

end FirstRow
