import FirstRow.Proofs.Columns
import FirstRow.Proofs.Sql.DeclaredItems
import FirstRow.Proofs.Sql.TypeCase
import FirstRow.Proofs.Store.Respelled

/-!
# The first row of a respelled table

What is fetched does not depend on how the definition of the table is spelled. Respelled definitions build a catalog of
the same shape (`Catalog.Builds.respelled`), and of a table nothing but its shape matters to how it is read and to what
its columns make of a row.
-/
namespace FirstRow.Store

open FirstRow.Sql

variable {img img' : Image} {names : List (List UInt8)}

/-! ## Rows of tables of one shape -/

namespace Entry

theorem sourceAt_outline (x : Entry) (kind : TreeKind) (column : Column) (source : Source) :
    x.sourceAt img kind (column.outline names) source = x.sourceAt img kind column source := by
  cases source with
  | field p =>
    simp only [sourceAt, columnAt, Column.missing_outline]
    rfl
  | _ => rfl

/-- Of a file nothing but the encoding matters to the values of an entry. -/
theorem sourceAt_congr (h : img'.encoding = img.encoding) (x : Entry) (kind : TreeKind) (column : Column)
    (source : Source) : x.sourceAt img' kind column source = x.sourceAt img kind column source := by
  cases source with
  | field p => simp only [sourceAt, columnAt, value?, textOf, h]
  | _ => rfl

end Entry

namespace Scan

@[simp] theorem rowidSources_outline (rowidColumn : Option Nat) (number position : Nat) (columns : List Column) :
    rowidSources rowidColumn number position (columns.map (Column.outline names)) =
      rowidSources rowidColumn number position columns := by
  induction columns generalizing number position with
  | nil => rfl
  | cons c columns ih => simp only [List.map_cons, rowidSources, Column.isStored_outline, ih]

@[simp] theorem cost_outline (t : Table) (ix : Index) : cost (t.outline names) ix = cost t ix := by
  have htable : tableWidth (t.outline names) = tableWidth t := by
    simp only [tableWidth, Table.columns_outline, List.foldl_map, Table.rowidColumn_outline]
    rfl
  have hindex : indexWidth (t.outline names) ix = indexWidth t ix := by
    have hcolumn (i : Option Nat) : (i.bind ((t.outline names).columns[·]?)).map (fun c => c.type.width) =
        (i.bind (t.columns[·]?)).map fun c => c.type.width := by
      cases i with
      | none => rfl
      | some i => exact t.map_columns_outline (f := fun c => c.type.width) (fun _ => rfl) i
    simp only [indexWidth, hcolumn]
  simp only [cost, htable, hindex]

@[simp] theorem isUsable_outline (t : Table) (ix : Index) : isUsable (t.outline names) ix = isUsable t ix := by
  simp [isUsable]

theorem cheapest_outline (t : Table) (ixs : List Index) : cheapest (t.outline names) ixs = cheapest t ixs := by
  induction ixs with
  | nil => rfl
  | cons ix rest ih => simp only [cheapest, ih, cost_outline]

/-- How a table is read does not depend on how it is spelled. -/
theorem ofTable_outline (t : Table) : ofTable (t.outline names) = ofTable t := by
  have husable : isUsable (t.outline names) = isUsable t := funext fun ix => isUsable_outline t ix
  have hindex (ix : Index) : indexSources (t.outline names) ix = indexSources t ix := by simp [indexSources]
  simp only [ofTable, Table.withoutRowid_outline, Table.indexes_outline, husable, cheapest_outline, hindex,
    Table.root_outline, Table.rowidColumn_outline, Table.columns_outline, rowidSources_outline]

theorem ofTable_congr {t t' : Table} (h : t'.shape = t.shape) : ofTable t' = ofTable t :=
  (ofTable_outline t').symm.trans ((congrArg ofTable h).trans (ofTable_outline t))

theorem rowAt_outline (t : Table) (s : Scan) (x : Entry) : rowAt img (t.outline names) s x = rowAt img t s x := by
  simp only [rowAt, Table.columns_outline, List.zip_map_left, List.map_map]
  congr 1
  funext p
  exact x.sourceAt_outline s.kind p.1 p.2

theorem rowAt_congr (hencoding : img'.encoding = img.encoding) {t t' : Table} (h : t'.shape = t.shape) (s : Scan)
    (x : Entry) : rowAt img' t' s x = rowAt img t s x := by
  have hshape : rowAt img t' s x = rowAt img t s x :=
    (rowAt_outline t' s x).symm.trans ((congrArg (rowAt img · s x) h).trans (rowAt_outline t s x))
  rw [← hshape]
  simp only [rowAt, Entry.sourceAt_congr hencoding]

/-- Tables of one shape have one first row, if the tree that is read has the same entries. -/
theorem firstRow?_congr (hp : img.Proper) (hm : img.isMapped = true → img.Mapped) (hp' : img'.Proper)
    (hm' : img'.isMapped = true → img'.Mapped) (hencoding : img'.encoding = img.encoding) {t t' : Table}
    (hshape : t'.shape = t.shape)
    (hrows : ∀ s, ofTable t = .ok s → ∃ levels ≤ Walk.maxDescents, ∃ levels' ≤ Walk.maxDescents, ∃ rows,
      Tree img s.kind levels s.root rows ∧ Tree img' s.kind levels' s.root rows) :
    firstRow? img' t' = firstRow? img t := by
  have hscan := ofTable_congr hshape
  cases hs : ofTable t with
  | error e =>
    unfold firstRow?
    rw [hscan, hs]
    rfl
  | ok s =>
    obtain ⟨levels, hlevels, levels', hlevels', rows, htree, htree'⟩ := hrows s hs
    rw [firstRow?_of_scan hp hm hs hlevels htree, firstRow?_of_scan hp' hm' (hscan.trans hs) hlevels' htree']
    congr 2
    funext x
    exact rowAt_congr hencoding hshape s x

end Scan

/-- A schema some of whose definitions of tables are respelled makes a catalog of the same shape, in a file that is no
shorter. -/
theorem Database.respelled {content content' : ByteArray} {xs xs' : List Entry} {cat : Catalog}
    (h : Database content img xs cat) (hheader : FileHeader content' img')
    (hmapped : img'.isMapped = true → img'.Mapped) (hschema : ∃ levels ≤ Walk.maxDescents, Tree img' .table levels 1 xs')
    (hwritable : img'.isWritable = img.isWritable) (hpages : img.pageCount ≤ img'.pageCount)
    (hrespelled : List.Forall₂ (fun r r' => r = r' ∨ r.Respelled r') (xs.map (Entry.description img))
      (xs'.map (Entry.description img'))) :
    ∃ cat', Database content' img' xs' cat' ∧ cat'.shape = cat.shape := by
  obtain ⟨cat', hbuilds, hshape⟩ := h.catalog.respelled hrespelled rfl
  refine ⟨cat', ⟨hheader, hmapped, hschema, ?_⟩, hshape⟩
  rw [Catalog.initial_congr hwritable]
  exact hbuilds.congr hpages hwritable

end FirstRow.Store

namespace FirstRow

open FirstRow.Sql FirstRow.Store

section

variable {img img' : Image} {content content' : ByteArray} {xs xs' : List Entry} {cat cat' : Catalog}

/-- The tables of a name in catalogs of one shape are of one shape. -/
theorem Store.Catalog.tableNamed_shape (h : cat'.shape = cat.shape) (name : List UInt8) :
    ((cat'.relation? name).bind Relation.table?).map Table.shape =
      ((cat.relation? name).bind Relation.table?).map Table.shape := by
  have hfound (cat : Catalog) : ((cat.relation? name).bind Relation.table?).map Table.shape =
      (cat.shape.relation? name).bind Relation.table? := by
    rw [Catalog.relation?_shape, Option.bind_map, Option.map_bind]
    congr 1
    funext rel
    exact (rel.shape_table?).symm
  rw [hfound, hfound, h]

/-- Databases of one shape have one first row, if what is read of both has the same entries. -/
theorem Store.Database.values?_congr (h : Database content img xs cat) (h' : Database content' img' xs' cat')
    (hshape : cat'.shape = cat.shape) (hencoding : img'.encoding = img.encoding)
    (hrows : ∀ t s, cat.relation? servedName = some (.table t) → Scan.ofTable t = .ok s →
      ∃ levels ≤ Walk.maxDescents, ∃ levels' ≤ Walk.maxDescents, ∃ rows,
        Tree img s.kind levels s.root rows ∧ Tree img' s.kind levels' s.root rows) :
    Fetch.values? img' = Fetch.values? img := by
  have hserved := Catalog.tableNamed_shape hshape servedName
  unfold Fetch.values?
  rw [h.ofImage_eq, h'.ofImage_eq, Chain.ok_bind, Chain.ok_bind]
  rw [show Text.Utf8.ofString tableName = servedName from rfl]
  cases ht : (cat.relation? servedName).bind Relation.table? with
  | none =>
    rw [ht, Option.map_none, Option.map_eq_none_iff] at hserved
    rw [hserved]
  | some t =>
    rw [ht, Option.map_some, Option.map_eq_some_iff] at hserved
    obtain ⟨t', ht', hsame⟩ := hserved
    obtain ⟨u, hu, rfl⟩ := Catalog.exists_table (f := id) (by rw [ht]; rfl)
    rw [ht']
    exact Scan.firstRow?_congr h.header.proper h.mapped h'.header.proper h'.mapped hencoding hsame fun s => hrows u s hu

/-- A definition is a list of items, and what it declares is what they declare, each of them read alone. -/
def Sql.TableDeclaration.IsItemized (D : TableDeclaration) (sql : List UInt8) : Prop :=
  ∃ head c kss css options D₀, Reader.statement.run (.start (Source.ofText sql).lexemes) = .ok (.table head, c) ∧
    Clause.Itemized c.ahead kss css options ∧ D.Alike [] D₀ ∧ D₀.OfItems kss css

/-- What is fetched does not depend on how definitions of tables are spelled: from a file whose schema says the same, in
other letter case, other white space and other quotation marks, the same is fetched as long as what is read of the table
has the same entries. A respelled definition declares the same columns in the same order with the same keys, and each of
them is declared by one item: a list of lexemes with no comma and no closing parenthesis outside of the parentheses
within it, read alone. Other letter case never changes what a type means. -/
theorem fetch_respelled {d d' : Disk} {workingDirectory workingDirectory' : AbsolutePath} {path path' : String}
    (hnul : path.toList.contains '\x00' = false) (hnul' : path'.toList.contains '\x00' = false)
    (hleads : Leads d workingDirectory (Text.Utf8.ofString path) content img.isWritable)
    (hleads' : Leads d' workingDirectory' (Text.Utf8.ofString path') content' img'.isWritable)
    (h : Database content img xs cat) (hheader : FileHeader content' img') (hmapped : img'.isMapped = true → img'.Mapped)
    (hschema : ∃ levels ≤ Walk.maxDescents, Tree img' .table levels 1 xs') (hencoding : img'.encoding = img.encoding)
    (hwritable : img'.isWritable = img.isWritable) (hpages : img.pageCount ≤ img'.pageCount)
    (hrespelled : List.Forall₂ (fun r r' => r = r' ∨ r.Respelled r') (xs.map (Entry.description img))
      (xs'.map (Entry.description img')))
    (hrows : ∀ t s, cat.relation? servedName = some (.table t) → Scan.ofTable t = .ok s →
      ∃ levels ≤ Walk.maxDescents, ∃ levels' ≤ Walk.maxDescents, ∃ rows,
        Tree img s.kind levels s.root rows ∧ Tree img' s.kind levels' s.root rows) :
    fetch d' workingDirectory' path' = fetch d workingDirectory path ∧
      (∀ r r' : SchemaEntry, r.Respelled r' → ∃ D D', r.declaration? = some D ∧ r'.declaration? = some D' ∧
        D.Alike (D.columns.map ColumnDeclaration.name) D' ∧ D.IsItemized (r.sql.getD [])) ∧
      ∀ s s' : List UInt8, Text.Octet.fold s = Text.Octet.fold s' →
        (ColumnType.ofText s).outline = (ColumnType.ofText s').outline ∧ castAffinity s = castAffinity s' := by
  obtain ⟨cat', h', hshape⟩ := h.respelled hheader hmapped hschema hwritable hpages hrespelled
  refine ⟨?_, fun r r' hr => ?_, fun s s' hs => ⟨ColumnType.outline_ofText_congr hs, castAffinity_congr hs⟩⟩
  · have hvalues := h.values?_congr h' hshape hencoding hrows
    have hopened := openImage_eq hleads h.header
    have hopened' := openImage_eq hleads' hheader
    unfold fetch
    rw [if_neg (by rw [hnul']; exact Bool.false_ne_true), if_neg (by rw [hnul]; exact Bool.false_ne_true), hopened,
      hopened']
    simp only [Fetch.ofImage, hvalues]
  · obtain ⟨D, hD, hrespells⟩ := hr.respells
    obtain ⟨D', hD', halike⟩ := TableDeclaration.ofSql?_respelled hrespells hD
    exact ⟨D, D', hD, hD', halike, TableDeclaration.ofSql?_items (hrespells.permitted rfl) hD⟩

end

/-! ## Respellings that are checked -/

namespace Sql

/-- Whether two lexemes are the same up to the letter case of words. -/
def Lexeme.isSame (l l' : Lexeme) : Bool :=
  (match l.token, l'.token with
    | .keyword k w, .keyword k' w' => k == k' && Text.Octet.same w w'
    | .word w, .word w' => Text.Octet.same w w'
    | t, t' => t = t') &&
    Text.Octet.same l.text l'.text && (l.token ≠ .variable || l.text = l'.text)

theorem Lexeme.same_of_isSame {l l' : Lexeme} (h : l.isSame l' = true) : l.Same l' := by
  simp only [isSame, Bool.and_eq_true, Bool.or_eq_true, decide_eq_true_eq] at h
  obtain ⟨⟨htoken, htext⟩, hvariable⟩ := h
  refine ⟨?_, Text.Octet.fold_eq_iff.mpr htext, fun hl => hvariable.resolve_left (absurd hl)⟩
  split at htoken
  · next k w k' w' hl hl' =>
    rw [Bool.and_eq_true, beq_iff_eq] at htoken
    rw [hl, hl', htoken.1]
    exact .keyword k' (Text.Octet.fold_eq_iff.mpr htoken.2)
  · next w w' hl hl' =>
    rw [hl, hl']
    exact .word (Text.Octet.fold_eq_iff.mpr htoken)
  · rw [decide_eq_true_eq] at htoken
    rw [htoken]
    exact .refl _

/-- Whether two types mean the same. -/
def ColumnType.meansSame (t t' : ColumnType) : Bool :=
  t.standard = t'.standard && t.affinity = t'.affinity && t.width = t'.width

/-- Whether lexemes are a respelling of others in which words change their letter case, and names of tables and columns
their quotation marks where they are declared. -/
def isRespelling : Spot → List Lexeme → List Lexeme → Bool
  | _, [], [] => true
  | s, l :: ls, l' :: ls' =>
    s.permits l &&
      (l.isSame l' && (!s.mode.isExact || l.name? = l'.name?) ||
        s.mode.isName && l.name?.isSome && l.name? = l'.name? &&
          (s.mode ≠ .table || !l.isWord "if" && !l'.isWord "if")) &&
      (s.mode ≠ .type ||
        s.depth ≤ 1 && (ColumnType.ofText (typeText (l :: ls))).meansSame (.ofText (typeText (l' :: ls')))) &&
      isRespelling (s.behind l) ls ls'
  | _, _, _ => false

theorem respells_of_isRespelling {names : List (List UInt8)} {s : Spot} {ls ls' : List Lexeme}
    (h : isRespelling s ls ls' = true) : Respells ⟨names, none⟩ s ls ls' := by
  induction ls generalizing s ls' with
  | nil =>
    cases ls' with
    | nil => exact .nil
    | cons l' ls' => simp [isRespelling] at h
  | cons l ls ih =>
    cases ls' with
    | nil => simp [isRespelling] at h
    | cons l' ls' =>
      simp only [isRespelling, Bool.and_eq_true] at h
      obtain ⟨⟨⟨hpermits, hpair⟩, htype⟩, hrest⟩ := h
      refine .cons hpermits ?_ (fun hmode => ?_) (ih hrest) fun h => by cases h
      · simp only [Bool.or_eq_true, Bool.and_eq_true, decide_eq_true_eq, Bool.not_eq_true'] at hpair
        rcases hpair with ⟨hsame, hexact⟩ | ⟨⟨⟨hname, hsome⟩, heq⟩, hif⟩
        · exact .same (Lexeme.same_of_isSame hsame) fun h => .inl (hexact.resolve_left (by simp [h]))
        · exact .name hname hsome heq fun h => hif.resolve_left (absurd h)
      · simp only [Bool.or_eq_true, Bool.and_eq_true, decide_eq_true_eq, ColumnType.meansSame] at htype
        obtain ⟨hdepth, ⟨hstandard, haffinity⟩, hwidth⟩ := htype.resolve_left (absurd hmode)
        rw [TypesAgree, if_pos hdepth, ColumnType.outline, ColumnType.outline, ColumnType.mk.injEq]
        exact ⟨hstandard, haffinity, hwidth, rfl⟩

end Sql

/-! ## Three spellings -/

namespace Spelled

/-- A definition, in which the second column has the affinity of numbers. -/
def plain : String := "CREATE TABLE test(id integer primary key,data A B)"

/-- The same with other white space, comments, letter case and quotation marks. -/
def respelled : String := "create table \"test\" -- (\n([id]INTEGER/*,*/Primary Key, 'data' a b)"

/-- The same with a comment within a type. -/
def commented : String := "CREATE TABLE test(id integer primary key,data A/*real*/B)"

/-- What the whole number in the second column is as a value of that column. -/
def values : List (String × Datum) := [(plain, .integer 5), (commented, .real (.ofInt 5))]

def declaration (sql : String) : Entry :=
  Small.object 1 "table" "test" 2 sql

/-- One row, with a whole number in both columns. -/
def rows : List Entry :=
  [Small.entry 3 [⟨0, 1, []⟩, ⟨1, 1, [5]⟩]]

def octets (sql : String) : List UInt8 :=
  Small.leaf (Small.header 2) .table [declaration sql] ++ Small.leaf [] .table rows

def img (sql : String) : Image := Small.image (octets sql) 2

def catalog (sql : String) : Catalog :=
  ((Catalog.Sum.initial (img sql)).catalog.add (img sql) ((declaration sql).description (img sql))).1

/-- Each file has two pages, each of them a leaf. -/
theorem file_spec : ∀ sql ∈ [plain, respelled, commented], (octets sql).length = 2 * 512 ∧
    (octets sql).take 100 = Small.header 2 ∧ Small.HasEntries (octets sql) 1 .table [declaration sql] ∧
    Small.HasEntries (octets sql) 2 .table rows := by
  decide +kernel

set_option synthInstance.maxSize 400 in
theorem catalog_spec : ∀ p ∈ values,
    ((Catalog.Sum.initial (img p.1)).catalog.add (img p.1) ((declaration p.1).description (img p.1))).2 = none ∧
      (((catalog p.1).relation? servedName).bind Relation.table?).map (fun t =>
        (t.root, t.withoutRowid, t.columns.all (·.isStored), rows.map (Entry.row (img p.1) t))) =
        some (2, false, true, [[.integer 3, p.2]]) := by
  decide +kernel

variable {sql : String} {a : Datum}

theorem mem_of_mem_values (h : (sql, a) ∈ values) : sql ∈ [plain, respelled, commented] := by
  simp only [values, List.mem_cons, Prod.mk.injEq, List.not_mem_nil, or_false] at h
  rcases h with ⟨rfl, -⟩ | ⟨rfl, -⟩ <;> simp

theorem header (h : sql ∈ [plain, respelled, commented]) : FileHeader (img sql).content (img sql) :=
  Small.fileHeader (by decide) (by decide) (file_spec sql h).1 (file_spec sql h).2.1

theorem schema (h : sql ∈ [plain, respelled, commented]) : Leaf (img sql) .table 1 [declaration sql] :=
  (file_spec sql h).2.2.1.leaf (file_spec sql h).1 (Small.isPage (by decide) (by decide) (by decide))

theorem table (h : sql ∈ [plain, respelled, commented]) : Leaf (img sql) .table 2 rows :=
  (file_spec sql h).2.2.2.leaf (file_spec sql h).1 (Small.isPage (by decide) (by decide) (by decide))

theorem database (h : (sql, a) ∈ values) :
    Database (img sql).content (img sql) [declaration sql] (catalog sql) where
  header := header (mem_of_mem_values h)
  mapped h := by cases h
  schema := ⟨0, by decide, schema (mem_of_mem_values h)⟩
  catalog := .cons (Prod.ext rfl (catalog_spec _ h).1) .nil

theorem leads : Leads (Small.disk (img sql)) [] (Text.Utf8.ofString "/t") (img sql).content (img sql).isWritable :=
  Small.leads rfl

theorem table_spec (h : (sql, a) ∈ values) : ∃ t, (catalog sql).relation? servedName = some (.table t) ∧ t.root = 2 ∧
    t.withoutRowid = false ∧ (∀ c ∈ t.columns, c.isStored = true) ∧ rows.map (Entry.row (img sql) t) = [[.integer 3, a]] := by
  obtain ⟨t, ht, hspec⟩ := Catalog.exists_table (catalog_spec _ h).2
  simp only [Prod.mk.injEq, List.all_eq_true] at hspec
  exact ⟨t, ht, hspec⟩

theorem fetch_eq (h : (sql, a) ∈ values) : fetch (Small.disk (img sql)) [] "/t" = some <$> Fetch.row [.integer 3, a] := by
  obtain ⟨t, ht, hroot, hrowid, hstored, hvalues⟩ := table_spec h
  have hserves := (database h).serves Small.path_nul leads ht
  have htree : Tree (img sql) .table 0 t.root rows := hroot ▸ table (mem_of_mem_values h)
  have hfirst := Scan.firstRow?_table hserves.proper hserves.mapped hrowid hstored (Nat.zero_le _) htree
  rw [← List.head?_map, hvalues] at hfirst
  exact hserves.fetch_of_some hfirst

theorem isRespelled : ((declaration plain).description (img plain)).Respelled
    ((declaration respelled).description (img respelled)) where
  type := by decide +kernel
  name := by decide +kernel
  table := by decide +kernel
  root := by decide +kernel
  begins := by decide +kernel
  begins' := by decide +kernel
  respells := by
    have hsome : ((declaration plain).description (img plain)).declaration?.isSome = true := by decide +kernel
    obtain ⟨D, hD⟩ := Option.isSome_iff_exists.mp hsome
    exact ⟨D, hD, respells_of_isRespelling (by decide +kernel)⟩

end Spelled

/-- The first row of the respelled table is that of the other one. -/
theorem fetch_respelled_small :
    ((Spelled.declaration Spelled.plain).description (Spelled.img Spelled.plain)).Respelled
        ((Spelled.declaration Spelled.respelled).description (Spelled.img Spelled.respelled)) ∧
      fetch (Small.disk (Spelled.img Spelled.respelled)) [] "/t" = .ok (some ⟨.integer 3, .integer 5⟩) := by
  have hplain : (Spelled.plain, Datum.integer 5) ∈ Spelled.values := List.mem_cons_self
  have hfile : Spelled.plain ∈ [Spelled.plain, Spelled.respelled, Spelled.commented] := List.mem_cons_self
  have hfile' : Spelled.respelled ∈ [Spelled.plain, Spelled.respelled, Spelled.commented] := by simp
  obtain ⟨t, ht, hroot, hrowid, -⟩ := Spelled.table_spec hplain
  obtain ⟨hfetch, -⟩ := fetch_respelled Small.path_nul Small.path_nul Spelled.leads Spelled.leads
    (Spelled.database hplain) (Spelled.header hfile') (fun h => by cases h) ⟨0, by decide, Spelled.schema hfile'⟩ rfl rfl
    (Nat.le_refl _) (.cons (.inr Spelled.isRespelled) .nil) fun u s hu hs => by
      obtain rfl : u = t := by simpa [hu] using ht
      obtain rfl := Except.ok.inj ((Scan.ofTable_numbered hrowid).symm.trans hs)
      rw [hroot]
      exact ⟨0, by decide, 0, by decide, Spelled.rows, Spelled.table hfile, Spelled.table hfile'⟩
  refine ⟨Spelled.isRespelled, ?_⟩
  rw [hfetch, Spelled.fetch_eq hplain]
  rfl

/-- A comment between the words of a type belongs to the type: the lexemes of two definitions are the same, and so are
the stored rows, but a whole number is fetched as a real where such a comment says so. -/
theorem comment_in_type_fetched :
    (Source.ofText (Text.Utf8.ofString Spelled.commented)).lexemes.map (fun l => (l.token, l.text)) =
        (Source.ofText (Text.Utf8.ofString Spelled.plain)).lexemes.map (fun l => (l.token, l.text)) ∧
      (∀ sql ∈ [Spelled.plain, Spelled.commented], ∃ cat t,
        Database (Spelled.img sql).content (Spelled.img sql) [Spelled.declaration sql] cat ∧
        cat.relation? servedName = some (.table t) ∧ Tree (Spelled.img sql) .table 0 t.root Spelled.rows) ∧
      fetch (Small.disk (Spelled.img Spelled.plain)) [] "/t" = .ok (some ⟨.integer 3, .integer 5⟩) ∧
      fetch (Small.disk (Spelled.img Spelled.commented)) [] "/t" =
        .ok (some ⟨.integer 3, .real ⟨.ofInt 5, by decide +kernel⟩⟩) := by
  have hplain : (Spelled.plain, Datum.integer 5) ∈ Spelled.values := List.mem_cons_self
  have hcommented : (Spelled.commented, Datum.real (.ofInt 5)) ∈ Spelled.values :=
    List.mem_cons_of_mem _ List.mem_cons_self
  have hserved (sql : String) (a : Datum) (h : (sql, a) ∈ Spelled.values) : ∃ cat t,
      Database (Spelled.img sql).content (Spelled.img sql) [Spelled.declaration sql] cat ∧
      cat.relation? servedName = some (.table t) ∧ Tree (Spelled.img sql) .table 0 t.root Spelled.rows := by
    obtain ⟨t, ht, hroot, -⟩ := Spelled.table_spec h
    exact ⟨_, t, Spelled.database h, ht, hroot ▸ Spelled.table (Spelled.mem_of_mem_values h)⟩
  refine ⟨by decide +kernel, fun sql hsql => ?_, ?_, ?_⟩
  · simp only [List.mem_cons, List.not_mem_nil, or_false] at hsql
    rcases hsql with rfl | rfl
    · exact hserved _ _ hplain
    · exact hserved _ _ hcommented
  · rw [Spelled.fetch_eq hplain]
    rfl
  · rw [Spelled.fetch_eq hcommented]
    exact congrArg (some <$> ·) (Fetch.Served.row_eq (.both (.integer 3) (.real ⟨.ofInt 5, by decide +kernel⟩)))

end FirstRow
