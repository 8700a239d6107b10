import FirstRow.Fetch
import FirstRow.Proofs.Store.Small
import FirstRow.Proofs.Store.Schema

/-!
# The first row

What is fetched from a database file is the first row of the table `test`. `Database` says of a file that it is in the
format; the layout of its trees is free. In a table whose rows have numbers the first row is the one with the least
number. Where rows have no number, they are read from the index that is cheapest among those that hold all columns, and
the first row is the leftmost entry of that index.
-/
namespace FirstRow.Store

open FirstRow.Sql

variable {img : Image}

/-! ## Rows -/

namespace Entry

/-- The value of a column from a field of an entry. A field that the record lacks takes the default of the column. -/
def columnAt (img : Image) (kind : TreeKind) (x : Entry) (p : Nat) (column : Column) : Datum :=
  column.type.affinity.onRead ((x.value? img kind p).getD (column.missing img.encoding))

/-- The row of an entry of a table whose rows have numbers: the column that stands for the number has that number, and
every other one the field at its own place. -/
def row (img : Image) (t : Table) (x : Entry) : List Datum :=
  t.columns.mapIdx fun i column =>
    if t.rowidColumn = some i then .integer x.rowid else x.columnAt img .table i column

/-- The row of an entry of an index: every column has the first field that the index has for it. -/
def rowOf (img : Image) (t : Table) (ix : Index) (x : Entry) : List Datum :=
  t.columns.mapIdx fun i column =>
    match ix.columns.findIdx? (·.column = some i) with
    | some p => x.columnAt img .index p column
    | none => .null

/-- The value of a column from a source. -/
def sourceAt (img : Image) (kind : TreeKind) (x : Entry) (column : Column) : Store.Source → Datum
  | .rowid => .integer x.rowid
  | .computed => .null
  | .field p => x.columnAt img kind p column

end Entry

namespace Scan

theorem le_foldl_max {l : List Nat} {n : Nat} (h : n ∈ l) : n ≤ l.foldl max 0 := by
  rw [List.foldl_max]
  cases hmax : l.max? with
  | none =>
    rw [List.max?_eq_none_iff.mp hmax] at h
    cases h
  | some m =>
    have := (List.max?_eq_some_iff.mp hmax).2 n h
    simpa using this

/-- The fields that are looked at are those that some column comes from. -/
theorem lt_fieldCount {s : Scan} {p : Nat} (h : .field p ∈ s.sources) : p < s.fieldCount :=
  le_foldl_max (List.mem_map.mpr ⟨_, h, rfl⟩)

theorem mapM_eq_ok {α β : Type} {f : α → Except Error β} {g : α → β} {as : List α} (h : ∀ a ∈ as, f a = .ok (g a)) :
    as.mapM f = .ok (as.map g) := by
  induction as with
  | nil => rfl
  | cons a as ih =>
    rw [List.mapM_cons, h a (by simp), Chain.ok_bind, ih fun b hb => h b (List.mem_cons_of_mem a hb)]
    rfl

/-- The payload of an entry has the values of its row. -/
theorem rowIn_eq {x : Entry} (h : x.IsRecord) (t : Table) (s : Scan) :
    s.rowIn img.encoding t x.rowid x.payload x.kept =
      .ok ((t.columns.zip s.sources).map fun (column, source) => x.sourceAt img s.kind column source) := by
  unfold rowIn
  rw [Record.layoutIn_eq h, Chain.ok_bind]
  refine mapM_eq_ok fun (column, source) hmem => ?_
  cases source with
  | rowid => rfl
  | computed => rfl
  | field p =>
    simp only [Record.field?_eq x (lt_fieldCount (List.of_mem_zip hmem).2), Chain.ok_bind, Entry.sourceAt, Entry.columnAt,
      Entry.value?]
    cases hget : x.contents[p]? with
    | none => rfl
    | some c =>
      simp only [Option.map_some, Record.valueIn_eq h hget]
      rfl

/-- The values of a row are read. -/
theorem row_gives {n i : Nat} {x : Entry} {pages : List Nat} {s : Scan} (h : Stores img s.kind n i x pages)
    (hp : img.Proper) (hm : img.isMapped = true → img.Mapped) (hrecord : x.IsRecord) (t : Table) :
    Gives pages (s.row img t (x.cell img n i))
      ((t.columns.zip s.sources).map fun (column, source) => x.sourceAt img s.kind column source) := by
  have hread := row_yields h.spread hp hm (Entry.decode_payload_le hrecord.header) t x.rowid
  rwa [rowIn_eq hrecord] at hread

/-- Of columns that are stored, the fields of a record are those of the columns in turn. -/
theorem rowidSources_append {rowidColumn : Option Nat} {columns : List Column} (h : ∀ c ∈ columns, c.isStored = true)
    (number : Nat) (rest : List Column) :
    rowidSources rowidColumn number number (columns ++ rest) =
      ((List.range' number columns.length).map fun i => if rowidColumn = some i then .rowid else .field i) ++
        rowidSources rowidColumn (number + columns.length) (number + columns.length) rest := by
  induction columns generalizing number with
  | nil => rfl
  | cons c columns ih =>
    have hc := h c (by simp)
    have hrest := ih (fun d hd => h d (List.mem_cons_of_mem c hd)) (number + 1)
    simp only [List.cons_append, rowidSources, hc, hrest, Bool.not_true, Bool.false_eq_true, if_false, List.length_cons,
      List.range'_succ, List.map_cons, Nat.add_assoc, Nat.add_comm 1]

/-- If all columns are stored, the row is that of the entry. -/
theorem rowidSources_row {t : Table} (hstored : ∀ c ∈ t.columns, c.isStored = true) (x : Entry) :
    ((t.columns.zip (rowidSources t.rowidColumn 0 0 t.columns)).map fun (column, source) =>
      x.sourceAt img .table column source) = x.row img t := by
  have hsources : rowidSources t.rowidColumn 0 0 (t.columns ++ []) = _ := rowidSources_append hstored 0 []
  rw [List.append_nil, rowidSources, List.append_nil] at hsources
  rw [hsources]
  refine List.ext_getElem (by simp [Entry.row]) fun k _ _ => ?_
  simp only [Entry.row, List.getElem_map, List.getElem_zip, List.getElem_range', List.getElem_mapIdx, Nat.one_mul,
    Nat.zero_add]
  split <;> rfl

/-- The row of an entry of an index. -/
theorem rowOf_eq (hp : img.Proper) (hm : img.isMapped = true → img.Mapped) {t : Table} {ix : Index} {x : Entry}
    {c : Cell} (h : x.IsAt img .index c) :
    (row img t ⟨.index, ix.root, indexSources t ix⟩ c).run' #[] = .ok (x.rowOf img t ix) := by
  obtain ⟨hrecord, n, i, pages, rfl, hstores⟩ := h
  have hrow := row_gives (s := ⟨.index, ix.root, indexSources t ix⟩) hstores hp hm hrecord t
  rw [hrow.run']
  congr 1
  refine List.ext_getElem (by simp [Entry.rowOf, indexSources]) fun k _ _ => ?_
  simp only [Entry.rowOf, indexSources, List.getElem_map, List.getElem_zip, List.getElem_range, List.getElem_mapIdx]
  cases ix.columns.findIdx? (·.column = some k) <;> rfl

/-- The row of an entry of a table that is read in some way. -/
def rowAt (img : Image) (t : Table) (s : Scan) (x : Entry) : List Datum :=
  (t.columns.zip s.sources).map fun (column, source) => x.sourceAt img s.kind column source

/-- The first row is that of the first entry of the tree that is read. -/
theorem firstRow?_of_scan (hp : img.Proper) (hm : img.isMapped = true → img.Mapped) {t : Table} {s : Scan}
    (hs : ofTable t = .ok s) {levels : Nat} (hlevels : levels ≤ Walk.maxDescents) {xs : List Entry}
    (h : Tree img s.kind levels s.root xs) : firstRow? img t = .ok (xs.head?.map (rowAt img t s)) := by
  unfold firstRow?
  rw [hs, Chain.ok_bind]
  cases xs with
  | nil =>
    rw [Walk.first?_nil hp h, Chain.ok_bind]
    rfl
  | cons x rest =>
    obtain ⟨c, hfirst, hat⟩ := Walk.first?_cons hp h hlevels
    obtain ⟨hrecord, n, i, pages, rfl, hstores⟩ := hat
    have hrow := row_gives hstores hp hm hrecord t
    rw [hfirst, Chain.ok_bind]
    simp only [hrow.run']
    rfl

/-- A table whose rows have numbers is read in its own tree. -/
theorem ofTable_numbered {t : Table} (hrows : t.withoutRowid = false) :
    ofTable t = .ok ⟨.table, t.root, rowidSources t.rowidColumn 0 0 t.columns⟩ := by
  unfold ofTable
  rw [if_neg (by simp [hrows])]

/-- A table whose rows have numbers is read in the order of the numbers, whether or not all its columns are stored. -/
theorem firstRow?_numbered (hp : img.Proper) (hm : img.isMapped = true → img.Mapped) {t : Table}
    (hrows : t.withoutRowid = false) {levels : Nat} (hlevels : levels ≤ Walk.maxDescents) {xs : List Entry}
    (h : Tree img .table levels t.root xs) :
    firstRow? img t = .ok (xs.head?.map fun x =>
      (t.columns.zip (rowidSources t.rowidColumn 0 0 t.columns)).map fun (column, source) =>
        x.sourceAt img .table column source) := by
  exact firstRow?_of_scan hp hm (ofTable_numbered hrows) hlevels h

/-- A table whose rows have numbers is read in the order of the numbers. -/
theorem firstRow?_table (hp : img.Proper) (hm : img.isMapped = true → img.Mapped) {t : Table}
    (hrows : t.withoutRowid = false) (hstored : ∀ c ∈ t.columns, c.isStored = true) {levels : Nat}
    (hlevels : levels ≤ Walk.maxDescents) {xs : List Entry} (h : Tree img .table levels t.root xs) :
    firstRow? img t = .ok (xs.head?.map (Entry.row img t)) := by
  rw [firstRow?_numbered hp hm hrows hlevels h]
  simp only [rowidSources_row hstored]

/-- The index that is chosen is one of those it is chosen from. -/
theorem mem_of_cheapest {t : Table} {ixs : List Index} {ix : Index} (h : cheapest t ixs = some ix) : ix ∈ ixs := by
  induction ixs with
  | nil => cases h
  | cons first rest ih =>
    unfold cheapest at h
    split at h
    · next other hother =>
      split at h
      · cases h
        exact List.mem_cons_self
      · cases h
        exact List.mem_cons_of_mem _ (ih hother)
    · cases h
      exact List.mem_cons_self

/-- The index through which a table is read whose rows have no number: it holds all columns, and of the indexes that do
it is the cheapest, of equally cheap ones the first. -/
structure Chosen (t : Table) (ixs : List Index) (ix : Index) : Prop where
  usable : isUsable t ix = true
  first : ∃ before behind, ixs = before ++ ix :: behind ∧
    (∀ other ∈ before, isUsable t other = true → cost t ix < cost t other) ∧
    ∀ other ∈ behind, isUsable t other = true → cost t ix ≤ cost t other

namespace Chosen

variable {t : Table} {ixs : List Index} {ix : Index}

theorem mem (h : Chosen t ixs ix) : ix ∈ ixs := by
  obtain ⟨before, behind, rfl, -, -⟩ := h.first
  simp

/-- Of indexes with a usable one, one is chosen. -/
theorem exists_of_usable (h : ∃ ix ∈ ixs, isUsable t ix = true) : ∃ ix, Chosen t ixs ix := by
  induction ixs with
  | nil =>
    obtain ⟨ix, hmem, -⟩ := h
    cases hmem
  | cons head rest ih =>
    by_cases hrest : ∃ ix ∈ rest, isUsable t ix = true
    · obtain ⟨ix, husable, before, behind, rfl, hbefore, hbehind⟩ := ih hrest
      by_cases hhead : isUsable t head = true ∧ cost t head ≤ cost t ix
      · refine ⟨head, hhead.1, [], _, rfl, by simp, fun other hmem hother => ?_⟩
        rcases List.mem_append.mp hmem with hmem | hmem
        · have := hbefore other hmem hother
          omega
        · rcases List.mem_cons.mp hmem with rfl | hmem
          · exact hhead.2
          · have := hbehind other hmem hother
            omega
      · refine ⟨ix, husable, head :: before, behind, rfl, fun other hmem hother => ?_, hbehind⟩
        rcases List.mem_cons.mp hmem with rfl | hmem
        · exact Nat.lt_of_not_le fun hle => hhead ⟨hother, hle⟩
        · exact hbefore other hmem hother
    · obtain ⟨ix, hmem, husable⟩ := h
      rcases List.mem_cons.mp hmem with rfl | hmem
      · exact ⟨ix, husable, [], rest, rfl, by simp, fun other hother hthere => absurd ⟨other, hother, hthere⟩ hrest⟩
      · exact absurd ⟨ix, hmem, husable⟩ hrest

theorem cheapest_eq (h : Chosen t ixs ix) : cheapest t (ixs.filter (isUsable t)) = some ix := by
  obtain ⟨before, behind, rfl, hbefore, hbehind⟩ := h.first
  have hlast : cheapest t (ix :: behind.filter (isUsable t)) = some ix := by
    unfold cheapest
    split
    · next other hother =>
      obtain ⟨hmem, husable⟩ := List.mem_filter.mp (mem_of_cheapest hother)
      exact if_pos (hbehind other hmem husable)
    · rfl
  rw [List.filter_append, List.filter_cons_of_pos h.usable]
  clear h
  induction before with
  | nil => exact hlast
  | cons first rest ih =>
    have hrest := ih fun other hmem => hbefore other (List.mem_cons_of_mem first hmem)
    by_cases hfirst : isUsable t first = true
    · have hcost := hbefore first List.mem_cons_self hfirst
      rw [List.filter_cons_of_pos hfirst, List.cons_append, cheapest, hrest]
      exact if_neg (by omega)
    · rw [List.filter_cons_of_neg hfirst]
      exact hrest

end Chosen

/-- A table whose rows have no number is read in the order of an index. -/
theorem firstRow?_index (hp : img.Proper) (hm : img.isMapped = true → img.Mapped) {t : Table}
    (hrows : t.withoutRowid = true) {ix : Index} (hix : Chosen t t.indexes ix) {levels : Nat}
    (hlevels : levels ≤ Walk.maxDescents) {xs : List Entry} (h : Tree img .index levels ix.root xs) :
    firstRow? img t = .ok (xs.head?.map (Entry.rowOf img t ix)) := by
  have hscan : ofTable t = .ok ⟨.index, ix.root, indexSources t ix⟩ := by
    unfold ofTable
    rw [if_pos hrows, hix.cheapest_eq]
  unfold firstRow?
  rw [hscan, Chain.ok_bind]
  cases xs with
  | nil =>
    rw [Walk.first?_nil hp h, Chain.ok_bind]
    rfl
  | cons x rest =>
    obtain ⟨c, hfirst, hat⟩ := Walk.first?_cons hp h hlevels
    rw [hfirst, Chain.ok_bind]
    simp only [rowOf_eq hp hm hat]
    rfl

end Scan

/-! ## Files -/

/-- A file is a database, and what its schema describes is a catalog: its header, the maps of its pages and the table at
its first page are in order, and no entry of that table is at fault. -/
structure Database (content : ByteArray) (img : Image) (xs : List Entry) (cat : Catalog) : Prop where
  header : FileHeader content img
  mapped : img.isMapped = true → img.Mapped
  schema : ∃ levels ≤ Walk.maxDescents, Tree img .table levels 1 xs
  catalog : Catalog.Builds img (Catalog.Sum.initial img).catalog (xs.map (Entry.description img)) cat

theorem Database.ofImage_eq {content : ByteArray} {xs : List Entry} {cat : Catalog} (h : Database content img xs cat) :
    Catalog.ofImage img = .ok cat := by
  obtain ⟨levels, hlevels, hschema⟩ := h.schema
  exact Catalog.ofImage_eq h.header.proper h.mapped h.header.knownFormat.2 hlevels hschema h.catalog

/-- A written name leads to a file on a disk, which is opened for writing or for reading only. -/
def Leads (d : Disk) (workingDirectory : AbsolutePath) (written : List UInt8) (content : ByteArray) (mayWrite : Bool) :
    Prop :=
  ∃ f p, FileName.parse written = .ok f ∧ f.mayWrite = mayWrite ∧ Opening.target d workingDirectory f = .ok (.path p) ∧
    d.node? p = some (.file content)

/-- The image of a file that a name leads to is what its header states. -/
theorem openImage_eq {d : Disk} {workingDirectory : AbsolutePath} {written : List UInt8} {content : ByteArray}
    (h : Leads d workingDirectory written content img.isWritable) (hheader : FileHeader content img) :
    openImage d workingDirectory written = .ok img := by
  obtain ⟨f, p, hparse, hwrite, htarget, hnode⟩ := h
  have hfile : Opening.fileAt d f p = .ok content := by
    unfold Opening.fileAt
    rw [hnode]
  unfold openImage Opening.image
  rw [hparse, Chain.ok_bind, htarget, Chain.ok_bind]
  simp only [hfile, Chain.ok_bind, hwrite]
  exact hheader.ofFile_eq f.logAllowed

/-- Whatever is opened, the measures of its pages are in order. -/
theorem openImage_proper {d : Disk} {workingDirectory : AbsolutePath} {written : List UInt8}
    (h : openImage d workingDirectory written = .ok img) : img.Proper := by
  obtain ⟨f, -, himage⟩ := Catalog.bind_eq_ok h
  obtain ⟨target, -, hfound⟩ := Catalog.bind_eq_ok himage
  cases target with
  | transient =>
    cases hfound
    exact Image.empty_proper
  | path p =>
    obtain ⟨content, -, hfile⟩ := Catalog.bind_eq_ok hfound
    exact Image.ofFile_proper hfile

end FirstRow.Store

namespace FirstRow

open FirstRow.Sql FirstRow.Store

/-- The name of the table that is served, as octets. -/
def servedName : List UInt8 := Text.Utf8.ofString tableName

section

variable {img : Image} {d : Disk} {workingDirectory : AbsolutePath} {path : String} {content : ByteArray}
  {xs : List Entry} {cat : Catalog}

/-- A path leads to a store whose catalog has a table of the name that is served. -/
structure Serves (d : Disk) (workingDirectory : AbsolutePath) (path : String) (img : Image) (t : Sql.Table) : Prop where
  nul : path.toList.contains '\x00' = false
  opened : openImage d workingDirectory (Text.Utf8.ofString path) = .ok img
  mapped : img.isMapped = true → img.Mapped
  catalog : ∃ cat, Catalog.ofImage img = .ok cat ∧ cat.relation? servedName = some (.table t)

namespace Serves

variable {t : Sql.Table}

theorem proper (h : Serves d workingDirectory path img t) : img.Proper :=
  openImage_proper h.opened

/-- What is fetched is the first row of the table. -/
theorem fetch_eq (h : Serves d workingDirectory path img t) :
    fetch d workingDirectory path =
      match Scan.firstRow? img t with
      | .error e => .error (.database (.store e))
      | .ok none => .ok none
      | .ok (some ds) => some <$> Fetch.row ds := by
  obtain ⟨cat, hcat, ht⟩ := h.catalog
  have hvalues : Fetch.values? img = Scan.firstRow? img t := by
    have htable : (cat.relation? (Text.Utf8.ofString tableName)).bind Relation.table? = some t := by
      rw [servedName] at ht
      rw [ht]
      rfl
    unfold Fetch.values?
    rw [hcat, Chain.ok_bind, htable]
  unfold fetch
  rw [if_neg (by rw [h.nul]; exact Bool.false_ne_true), h.opened]
  exact hvalues ▸ rfl

theorem fetch_of_error (h : Serves d workingDirectory path img t) {e : Store.Error}
    (hfirst : Scan.firstRow? img t = .error e) : fetch d workingDirectory path = .error (.database (.store e)) := by
  rw [h.fetch_eq, hfirst]

theorem fetch_of_none (h : Serves d workingDirectory path img t) (hfirst : Scan.firstRow? img t = .ok none) :
    fetch d workingDirectory path = .ok none := by
  rw [h.fetch_eq, hfirst]

theorem fetch_of_some (h : Serves d workingDirectory path img t) {ds : List Datum}
    (hfirst : Scan.firstRow? img t = .ok (some ds)) : fetch d workingDirectory path = some <$> Fetch.row ds := by
  rw [h.fetch_eq, hfirst]

end Serves

/-- A database file with a table of that name serves it. -/
theorem Store.Database.serves (h : Database content img xs cat) (hnul : path.toList.contains '\x00' = false)
    (hleads : Leads d workingDirectory (Text.Utf8.ofString path) content img.isWritable) {t : Sql.Table}
    (ht : cat.relation? servedName = some (.table t)) : Serves d workingDirectory path img t where
  nul := hnul
  opened := openImage_eq hleads h.header
  mapped := h.mapped
  catalog := ⟨cat, h.ofImage_eq, ht⟩

/-- What is fetched is the first row of the table that the catalog has by the name. -/
theorem fetch_eq (hnul : path.toList.contains '\x00' = false)
    (hleads : Leads d workingDirectory (Text.Utf8.ofString path) content img.isWritable)
    (h : Database content img xs cat) {t : Sql.Table} (ht : cat.relation? servedName = some (.table t)) {α : Type}
    {rows : List α} {f : α → List Datum} (hfirst : Scan.firstRow? img t = .ok (rows.head?.map f)) :
    (fetch d workingDirectory path = .ok none ↔ rows = []) ∧
      ∀ x rest, rows = x :: rest → fetch d workingDirectory path = some <$> Fetch.row (f x) := by
  have hserves := h.serves hnul hleads ht
  cases rows with
  | nil => simp [hserves.fetch_of_none hfirst]
  | cons x rest =>
    have hfetch := hserves.fetch_of_some hfirst
    refine ⟨?_, fun y rest' hrows => ?_⟩
    · -- a row that is there is never served as nothing
      rw [hfetch]
      cases Fetch.row (f x) <;> simp
    · cases hrows
      exact hfetch

/-- What is fetched from a database file with a table `test` is the first row of that table. Its root is stated by the
entry that declares it. If rows have numbers, the first row is the one with the least number, in whatever tree they
stand. If they have none, the first row is the leftmost entry of the index that is chosen: that of the primary key, at
the root of the table, or one that is rooted where an entry of its name says. -/
theorem fetch_first_row (hnul : path.toList.contains '\x00' = false)
    (hleads : Leads d workingDirectory (Text.Utf8.ofString path) content img.isWritable)
    (h : Database content img xs cat) (hstored : ∀ rel ∈ cat.relations, rel.table?.isSome = true) {e : Entry}
    (he : e ∈ xs) (hdeclares : (e.description img).Declares servedName)
    (hunique : ∀ y ∈ xs, (y.description img).IsOf "table" → (y.description img).IsNamed servedName → y = e) :
    ∃ t, cat.relation? servedName = some (.table t) ∧ (e.description img).root? = some t.root ∧
      ((∀ c ∈ t.columns, c.isStored = true) →
        (t.withoutRowid = false →
          ∀ levels rows, levels ≤ Walk.maxDescents → Tree img .table levels t.root rows →
            (fetch d workingDirectory path = .ok none ↔ rows = []) ∧
              ∀ x ∈ rows, (∀ y ∈ rows, x.rowid ≤ y.rowid) →
                fetch d workingDirectory path = some <$> Fetch.row (x.row img t)) ∧
        (t.withoutRowid = true → (∃ ix ∈ t.indexes, Scan.isUsable t ix = true) → ∃ ix, Scan.Chosen t t.indexes ix ∧
          ∀ levels rows, levels ≤ Walk.maxDescents → Tree img .index levels ix.root rows →
            (ix.origin = .primaryKey ∧ ix.root = t.root ∨
              Catalog.Stated (Catalog.schemaEntry :: xs.map (Entry.description img)) ix) ∧
            (fetch d workingDirectory path = .ok none ↔ rows = []) ∧
              ∀ x rest, rows = x :: rest → fetch d workingDirectory path = some <$> Fetch.row (x.rowOf img t ix))) := by
  have hproper := h.header.proper
  obtain ⟨t, hrelation, hplaced, r, hr, htype, hname, hroot⟩ := h.catalog.relation?_eq hstored
    (show Text.Octet.spells "sqlite_schema" servedName = false by decide)
    (show Text.Octet.same Catalog.schemaName servedName = false by decide)
    (List.mem_map_of_mem he) hdeclares
  obtain ⟨y, hy, rfl⟩ := List.mem_map.mp hr
  obtain rfl := hunique y hy htype hname
  refine ⟨t, hrelation, hroot, fun hcolumns => ⟨?_, ?_⟩⟩
  · intro hrows levels rows hlevels htree
    have hfirst := Scan.firstRow?_table hproper h.mapped hrows hcolumns hlevels htree
    obtain ⟨hnone, hsome⟩ := fetch_eq hnul hleads h hrelation hfirst
    refine ⟨hnone, fun x hx hleast => ?_⟩
    obtain ⟨rest, hhead⟩ := htree.head_of_least hx hleast
    exact hsome x rest hhead
  · intro hrows husable
    obtain ⟨ix, hix⟩ := Scan.Chosen.exists_of_usable husable
    refine ⟨ix, hix, fun levels rows hlevels htree => ?_⟩
    have hfirst := Scan.firstRow?_index hproper h.mapped hrows hix hlevels htree
    refine ⟨?_, fetch_eq hnul hleads h hrelation hfirst⟩
    have hmem := hix.mem
    by_cases hkey : ix.origin = .primaryKey
    · exact (hplaced.key hrows ix hmem hkey).imp_left fun hsame => ⟨hkey, hsame⟩
    · refine .inr ((hplaced.other ix hmem hkey).resolve_left fun hzero => ?_)
      -- no tree is rooted at page zero
      obtain ⟨isLeaf, count, hnode, -, -⟩ := htree.exists_node
      have := hnode.isPage.pos
      omega

end

/-- What is known of the table of a name is known of a table in the catalog. -/
theorem Store.Catalog.exists_table {cat : Catalog} {name : List UInt8} {α : Type} {f : Sql.Table → α} {a : α}
    (h : ((cat.relation? name).bind Relation.table?).map f = some a) :
    ∃ t, cat.relation? name = some (.table t) ∧ f t = a := by
  obtain ⟨t, ht, hf⟩ := Option.map_eq_some_iff.mp h
  obtain ⟨rel, hrel, htable⟩ := Option.bind_eq_some_iff.mp ht
  cases rel with
  | table u =>
    cases htable
    exact ⟨t, hrel, hf⟩
  | virtualTable name => cases htable
  | view name => cases htable

namespace Store.Small

/-- A disk with one file. -/
def disk (img : Image) : Disk :=
  ⟨[([Text.Utf8.ofString "t"], .file img.content)]⟩

theorem leads {img : Image} (h : img.isWritable = false) :
    Leads (disk img) [] (Text.Utf8.ofString "/t") img.content img.isWritable :=
  ⟨_, [Text.Utf8.ofString "t"], rfl, h.symm, rfl, rfl⟩

theorem path_nul : "/t".toList.contains '\x00' = false := by
  decide +kernel

end Store.Small

/-! ## A table whose rows have numbers -/

namespace Numbered

def declaration : Entry :=
  Small.object 1 "table" "test" 2 "CREATE TABLE test(id integer primary key,data text)"

def rows : List Entry :=
  [Small.entry 3 [⟨0, 1, []⟩, Small.text "a"], Small.entry 7 [⟨0, 1, []⟩, Small.text "b"]]

def octets : List UInt8 :=
  Small.leaf (Small.header 2) .table [declaration] ++ Small.leaf [] .table rows

def img : Image := Small.image octets 2

def catalog : Catalog :=
  ((Catalog.Sum.initial img).catalog.add img (declaration.description img)).1

/-- The file has two pages, each of them a leaf. -/
theorem pages : octets.length = 2 * 512 ∧ Leaf img .table 1 [declaration] ∧ Leaf img .table 2 rows := by
  have hfile : octets.length = 2 * 512 ∧ Small.HasEntries octets 1 .table [declaration] ∧
      Small.HasEntries octets 2 .table rows := by decide +kernel
  obtain ⟨hlength, hschema, hrows⟩ := hfile
  exact ⟨hlength, hschema.leaf hlength (by decide), hrows.leaf hlength (by decide)⟩

theorem table : Leaf img .table 2 rows := pages.2.2

theorem catalog_spec : ((Catalog.Sum.initial img).catalog.add img (declaration.description img)).2 = none ∧
    (∀ rel ∈ catalog.relations, rel.table?.isSome = true) ∧
    ((catalog.relation? servedName).bind Relation.table?).map (fun t =>
      (t.root, t.withoutRowid, t.columns.all (·.isStored), rows.map (Entry.row img t))) =
      some (2, false, true, [[.integer 3, .text [0x61]], [.integer 7, .text [0x62]]]) := by
  decide +kernel

theorem database : Database img.content img [declaration] catalog where
  header := Small.fileHeader (by decide) (by decide) pages.1 (by decide)
  mapped h := by cases h
  schema := ⟨0, by decide, pages.2.1⟩
  catalog := .cons (Prod.ext rfl catalog_spec.1) .nil

theorem declares : (declaration.description img).Declares servedName :=
  ⟨⟨Text.Utf8.ofString "table", by decide, by decide⟩,
    ⟨Text.Utf8.ofString "test", by decide, by decide⟩, by decide⟩

theorem leads : Leads (Small.disk img) [] (Text.Utf8.ofString "/t") img.content img.isWritable :=
  Small.leads rfl

/-- The table as the catalog has it. -/
theorem table_spec : ∃ t, catalog.relation? servedName = some (.table t) ∧ t.root = 2 ∧ t.withoutRowid = false ∧
    (∀ c ∈ t.columns, c.isStored = true) ∧
    rows.map (Entry.row img t) = [[.integer 3, .text [0x61]], [.integer 7, .text [0x62]]] := by
  obtain ⟨t, ht, hspec⟩ := Catalog.exists_table catalog_spec.2.2
  simp only [Prod.mk.injEq, List.all_eq_true] at hspec
  exact ⟨t, ht, hspec⟩

end Numbered

/-- Of the rows with the numbers three and seven, the one with the number three is fetched. -/
theorem fetch_first_row_three : fetch (Small.disk Numbered.img) [] "/t" = .ok (some ⟨.integer 3, .string "a"⟩) := by
  obtain ⟨t, ht, -, h⟩ := fetch_first_row (by decide +kernel) Numbered.leads Numbered.database Numbered.catalog_spec.2.1
    (List.mem_singleton_self _) Numbered.declares fun y hy _ _ => List.mem_singleton.mp hy
  obtain ⟨u, hu, hroot, hrows, hcolumns, hvalues⟩ := Numbered.table_spec
  obtain rfl : u = t := by simpa [ht] using hu.symm
  have htree : Tree Numbered.img .table 0 u.root Numbered.rows := hroot ▸ Numbered.table
  have hfetch := ((h hcolumns).1 hrows 0 _ (by decide) htree).2 _ List.mem_cons_self (by decide +kernel)
  rw [hfetch, (List.cons.inj hvalues).1]
  rfl

/-! ## A table whose rows have none -/

namespace Unnumbered

def declaration : Entry :=
  Small.object 1 "table" "test" 2 "CREATE TABLE test(id integer primary key,data text)WITHOUT ROWID"

def index : Entry :=
  Small.object 2 "index" "ix" 3 "CREATE INDEX ix ON test(data,id)"

/-- The entries of the primary key. -/
def keyEntries : List Entry :=
  [Small.entry 0 [⟨1, 1, [1]⟩, Small.text "b"], Small.entry 0 [⟨1, 1, [2]⟩, Small.text "a"]]

/-- The entries of the other index, which begins with the other column. -/
def indexEntries : List Entry :=
  [Small.entry 0 [Small.text "a", ⟨1, 1, [2]⟩], Small.entry 0 [Small.text "b", ⟨1, 1, [1]⟩]]

def octets : List UInt8 :=
  Small.leaf (Small.header 3) .table [declaration, index] ++ Small.leaf [] .index keyEntries ++
    Small.leaf [] .index indexEntries

def img : Image := Small.image octets 3

/-- The catalog behind the first entry. -/
def declared : Catalog :=
  ((Catalog.Sum.initial img).catalog.add img (declaration.description img)).1

def catalog : Catalog :=
  (declared.add img (index.description img)).1

/-- The file has three pages, each of them a leaf. -/
theorem pages : octets.length = 3 * 512 ∧ Leaf img .table 1 [declaration, index] ∧ Leaf img .index 2 keyEntries ∧
    Leaf img .index 3 indexEntries := by
  have hfile : octets.length = 3 * 512 ∧ Small.HasEntries octets 1 .table [declaration, index] ∧
      Small.HasEntries octets 2 .index keyEntries ∧ Small.HasEntries octets 3 .index indexEntries := by decide +kernel
  obtain ⟨hlength, hschema, hkeys, hindex⟩ := hfile
  exact ⟨hlength, hschema.leaf hlength (by decide), hkeys.leaf hlength (by decide), hindex.leaf hlength (by decide)⟩

theorem keyLeaf : Leaf img .index 2 keyEntries := pages.2.2.1

theorem indexLeaf : Leaf img .index 3 indexEntries := pages.2.2.2

set_option synthInstance.maxSize 400 in
theorem catalog_spec :
    ((Catalog.Sum.initial img).catalog.add img (declaration.description img)).2 = none ∧
      (declared.add img (index.description img)).2 = none ∧
      ((catalog.relation? servedName).bind Relation.table?).map (fun t =>
        (t.root, t.withoutRowid, t.indexes.map fun ix => (ix.origin, ix.root))) =
        some (2, true, [(.statement, 3), (.primaryKey, 2)]) ∧
      ((catalog.relation? servedName).bind Relation.table?).map (fun t =>
        t.indexes.map fun ix => (Scan.isUsable t ix, Scan.cost t ix)) = some [(true, 14), (true, 14)] ∧
      ((catalog.relation? servedName).bind Relation.table?).map (fun t =>
        (t.indexes.zip [indexEntries, keyEntries]).map fun (ix, xs) => xs.map (Entry.rowOf img t ix)) =
        some [[[.integer 2, .text [0x61]], [.integer 1, .text [0x62]]],
          [[.integer 1, .text [0x62]], [.integer 2, .text [0x61]]]] := by
  decide +kernel

theorem database : Database img.content img [declaration, index] catalog where
  header := Small.fileHeader (by decide) (by decide) pages.1 (by decide)
  mapped h := by cases h
  schema := ⟨0, by decide, pages.2.1⟩
  catalog := .cons (Prod.ext rfl catalog_spec.1) (.cons (Prod.ext rfl catalog_spec.2.1) .nil)

theorem leads : Leads (Small.disk img) [] (Text.Utf8.ofString "/t") img.content img.isWritable :=
  Small.leads rfl

end Unnumbered

/-- Where rows have no number, what is fetched is not always the leftmost entry of the primary key: that is the row
`(1, 'b')` here, but the row `(2, 'a')` is fetched, which another index begins with. -/
theorem key_entry_not_fetched : ∃ t key, Unnumbered.catalog.relation? servedName = some (.table t) ∧
    t.withoutRowid = true ∧ key ∈ t.indexes ∧ key.origin = .primaryKey ∧ key.root = t.root ∧
    Tree Unnumbered.img .index 0 t.root Unnumbered.keyEntries ∧
    Unnumbered.keyEntries.head?.map (Entry.rowOf Unnumbered.img t key) = some [.integer 1, .text [0x62]] ∧
    Database Unnumbered.img.content Unnumbered.img [Unnumbered.declaration, Unnumbered.index] Unnumbered.catalog ∧
    fetch (Small.disk Unnumbered.img) [] "/t" = .ok (some ⟨.integer 2, .string "a"⟩) := by
  obtain ⟨-, -, htable, hscan, hrows⟩ := Unnumbered.catalog_spec
  obtain ⟨t, hrelation, -⟩ := Catalog.exists_table htable
  simp only [hrelation, Option.bind_some, Relation.table?, Option.map_some, Option.some.injEq, Prod.mk.injEq]
    at htable hscan hrows
  obtain ⟨hroot, hwithout, hindexes⟩ := htable
  obtain ⟨ix, key, hpair⟩ : ∃ ix key, t.indexes = [ix, key] :=
    List.length_eq_two.mp (by simpa using congrArg List.length hindexes)
  simp only [hpair, List.map_cons, List.map_nil, List.zip_cons_cons, List.zip_nil_left, List.cons.injEq, Prod.mk.injEq,
    and_true] at hindexes hscan hrows
  obtain ⟨⟨-, hixRoot⟩, horigin, hkeyRoot⟩ := hindexes
  obtain ⟨⟨husable, hixCost⟩, -, hkeyCost⟩ := hscan
  refine ⟨t, key, hrelation, hwithout, by simp [hpair], horigin, hkeyRoot.trans hroot.symm, hroot ▸ Unnumbered.keyLeaf,
    ?_, Unnumbered.database, ?_⟩
  · rw [← List.head?_map, hrows.2]
    rfl
  · have hchosen : Scan.Chosen t t.indexes ix :=
      ⟨husable, [], [key], hpair, by simp, by simp [hixCost, hkeyCost]⟩
    have hfirst := Scan.firstRow?_index Unnumbered.database.header.proper Unnumbered.database.mapped hwithout hchosen
      (Nat.zero_le _) (hixRoot ▸ Unnumbered.indexLeaf)
    obtain ⟨-, hfetch⟩ := fetch_eq (by decide +kernel) Unnumbered.leads Unnumbered.database hrelation hfirst
    rw [hfetch _ _ rfl, (List.cons.inj hrows.1).1]
    rfl

end FirstRow
