import FirstRow.Proofs.Columns
import FirstRow.Proofs.Store.Descent
import FirstRow.Proofs.Store.Footprint

/-!
# How far reading goes

Whatever a store holds, fetching its first row ends with a row, with none, or with a failure of the database or of a
value, and it looks at nothing but pages that begin in the file. Descents that come back to a page, and chains that do,
make no exception: the first are an error, and the others are followed only as far as the length of the payload asks.
-/
namespace FirstRow.Store

variable {img : Image}

/-! ## Pages of files -/

/-- The pages of a file begin in it. A last one that is not complete goes on with zeros. -/
structure Image.InFile (img : Image) : Prop where
  within : ∀ n, 0 < n → n ≤ img.pageCount → (n - 1) * img.pageSize < img.content.size

theorem Image.ofFile_inFile {bs : ByteArray} {logAllowed mayWrite : Bool} {img : Image}
    (h : ofFile bs logAllowed mayWrite = .ok img) : img.InFile ∧ (img.content = .empty ∨ img.content = bs) := by
  simp only [ofFile] at h
  split at h
  · cases h
    exact ⟨⟨fun n hpos hle => absurd hle (by simp only [empty]; omega)⟩, .inl rfl⟩
  split at h
  · cases h
  split at h
  · cases h
  split at h
  · cases h
  split at h
  · cases h
  next hpages =>
  split at h
  · cases h
  cases h
  refine ⟨⟨fun n hpos hle => ?_⟩, .inr rfl⟩
  have hfile : n ≤ (bs.size + Header.pageSize bs - 1) / Header.pageSize bs := Nat.le_trans hle (Nat.le_of_not_lt hpages)
  have hmul := Nat.mul_le_of_le_div _ _ _ hfile
  have hsplit : n * Header.pageSize bs = (n - 1) * Header.pageSize bs + Header.pageSize bs := by
    rw [← Nat.succ_mul, Nat.succ_eq_add_one, Nat.sub_add_cancel hpos]
  show (n - 1) * Header.pageSize bs < bs.size
  omega

/-- What is opened is a file of the disk, or it has no content. -/
theorem openImage_inFile {d : Disk} {workingDirectory : AbsolutePath} {written : List UInt8}
    (h : openImage d workingDirectory written = .ok img) :
    img.InFile ∧ (img.content = .empty ∨ ∃ path, d.node? path = some (.file img.content)) := by
  obtain ⟨f, -, himage⟩ := Catalog.bind_eq_ok h
  obtain ⟨target, -, hfound⟩ := Catalog.bind_eq_ok himage
  cases target with
  | transient =>
    cases hfound
    exact ⟨⟨fun n hpos hle => absurd hle (by simp only [Image.empty]; omega)⟩, .inl rfl⟩
  | path p =>
    obtain ⟨content, hcontent, hfile⟩ := Catalog.bind_eq_ok hfound
    obtain ⟨hin, hsame⟩ := Image.ofFile_inFile hfile
    unfold Opening.fileAt at hcontent
    split at hcontent
    · next hnode =>
      cases hcontent
      exact ⟨hin, hsame.imp id fun hsame => ⟨p, by rw [hsame, hnode]⟩⟩
    · cases hcontent
    · split at hcontent
      · cases hcontent
        exact ⟨hin, .inl (hsame.elim id id)⟩
      · cases hcontent

/-! ## Walks that come back -/

/-- An error of the walk over the schema spoils the catalog, if nothing in front of it does. -/
theorem Catalog.ofImage_error {e : Error} (h : (Walk.schema img).2 = some e) : ∃ e, Catalog.ofImage img = .error e := by
  cases hcat : Catalog.ofImage img with
  | error e => exact ⟨e, rfl⟩
  | ok cat =>
    exfalso
    unfold ofImage at hcat
    split at hcat
    · cases hcat
    · cases hvisit : Walk.schema img with
      | mk cells e' =>
        rw [hvisit] at hcat h
        obtain rfl : e' = some e := h
        obtain ⟨sum, -, hsum⟩ := bind_eq_ok hcat
        cases hspoiled : sum.spoiled with
        | none =>
          rw [hspoiled] at hsum
          cases hsum
        | some spoiled =>
          rw [hspoiled] at hsum
          cases hsum

end FirstRow.Store

namespace FirstRow

open FirstRow.Store

variable {img : Image}

/-- The ways in which fetching can end. -/
inductive Ends : Except Failure (Option Row) → Prop where
  | none : Ends (.ok none)
  | row (r : Row) : Ends (.ok (some r))
  | database (e : DatabaseError) : Ends (.error (.database e))
  | value {column : Nat} {type : String} : column < 2 → type ∈ ["REAL", "BLOB"] →
      Ends (.error (.unsupportedValue column type))

namespace Fetch

theorem Fails.ends {column : Nat} {d : Datum} {f : Failure} (h : Fails column d f) (hcolumn : column < 2) :
    Ends (.error f) := by
  cases h with
  | blob => exact .value hcolumn (by simp)
  | infinite => exact .value hcolumn (by simp)
  | text => exact .database _

theorem row_ends (ds : List Datum) : Ends (some <$> row ds) := by
  by_cases hne : ds = []
  · rw [hne]
    exact .database (.columnIndexOutOfBounds 0 0)
  · rcases served_or_refused hne with ⟨r, hserved⟩ | ⟨f, hrefused⟩
    · rw [hserved.row_eq]
      exact .row r
    · rw [hrefused.row_eq]
      cases hrefused with
      | first hfails => exact hfails.ends (by decide)
      | second _ hfails => exact hfails.ends (by decide)
      | missing => exact .database _

theorem ofImage_ends (img : Image) : Ends (ofImage img) := by
  unfold ofImage
  split
  · exact .database _
  · exact .none
  · exact row_ends _

/-- Where the steps down from the first page come back, nothing is fetched. -/
theorem ofImage_of_schema (h : Recurs (Walk.Descends img) 1) : ∃ e, ofImage img = .error (.database (.store e)) := by
  obtain ⟨e, hvisit⟩ := Walk.schema_error h
  obtain ⟨e', hcat⟩ := Catalog.ofImage_error hvisit
  refine ⟨e', ?_⟩
  unfold ofImage values?
  rw [hcat]
  rfl

/-- Where the steps down the left edge of the table come back, nothing is fetched. -/
theorem ofImage_of_table {cat : Catalog} {t : Sql.Table} {s : Scan} (hcat : Catalog.ofImage img = .ok cat)
    (htable : cat.relation? servedName = some (.table t)) (hscan : Scan.ofTable t = .ok s)
    (h : Recurs (Walk.DescendsLeft img) s.root) : ofImage img = .error (.database (.store .malformed)) := by
  have hfirst : Scan.firstRow? img t = .error .malformed := by
    unfold Scan.firstRow?
    rw [hscan, Chain.ok_bind, Walk.first?_error h]
    rfl
  have hrelation : (cat.relation? (Text.Utf8.ofString tableName)).bind Relation.table? = some t := by
    rw [← servedName, htable]
    rfl
  unfold ofImage values?
  rw [hcat, Chain.ok_bind, hrelation]
  dsimp only
  rw [hfirst]

end Fetch

/-- What is read of the payload of a cell takes no more pages of its chain than the length of the payload asks for, and
no more of them are remembered, whichever are known. A payload is read as the layout of a record and the values of its
fields. -/
structure Store.Cell.Bounded (img : Image) (c : Cell) : Prop where
  layout (count : Nat) (known : Chain) :
    Follows img (c.chainPages img) fun img => (Record.layout img c count).run known
  layout_places {count : Nat} {known known' : Chain} {l : Record.Layout} :
    (Record.layout img c count).run known = .ok (l, known') → known'.size ≤ max known.size (c.chainPages img)
  value {count : Nat} {known known' : Chain} {l : Record.Layout} {f : Field} :
    (Record.layout img c count).run known = .ok (l, known') → f ∈ l.fields → ∀ (kind : TreeKind) (known : Chain),
      Follows img (c.chainPages img) fun img => (Record.value img kind c f).run known
  value_places {count : Nat} {known known' : Chain} {l : Record.Layout} {f : Field} :
    (Record.layout img c count).run known = .ok (l, known') → f ∈ l.fields →
      ∀ (kind : TreeKind) (known known' : Chain) (v : Datum), (Record.value img kind c f).run known = .ok (v, known') →
        known'.size ≤ max known.size (c.chainPages img)

theorem Store.Cell.bounded (img : Image) (c : Cell) : c.Bounded img where
  layout := Record.layout_follows img c
  layout_places := Record.layout_size
  value hlayout hf kind := Record.value_follows img kind (Record.layout_within hlayout _ hf)
  value_places hlayout hf _ _ _ _ := Record.value_size (Record.layout_within hlayout _ hf)

/-- Which pages can be read is a matter of the measures. -/
theorem Store.Image.page_holding {content : ByteArray} {n : Nat} {e : Error} (h : img.page n = .error e) :
    (img.holding content).page n = .error e := by
  unfold page at h ⊢
  split at h
  · next hn => exact (if_pos hn).trans h
  · cases h

/-- Fetching ends with a row, with none, or with a failure of the database or of a value, whatever the file holds. Of the
file it looks at no octet but those of pages that can be read, all of which begin in the file. Where the steps down from
the root of the schema or of the table come back to a page, it ends with a failure of the database; and no chain is gone
along further than the length of a payload asks. -/
theorem fetch_ends (d : Disk) (wd : AbsolutePath) (path : String) :
    Ends (fetch d wd path) ∧
    ∀ img, path.toList.contains '\x00' = false → openImage d wd (Text.Utf8.ofString path) = .ok img →
      fetch d wd path = Fetch.ofImage img ∧
      (img.content = .empty ∨ ∃ p, d.node? p = some (.file img.content)) ∧
      (∀ n p, img.page n = .ok p → (n - 1) * img.pageSize < img.content.size ∧
        p.octets = img.content.extract ((n - 1) * img.pageSize) (n * img.pageSize)) ∧
      Confined img (fun n => ∃ p, img.page n = .ok p) Fetch.ofImage ∧
      (Recurs (Walk.Descends img) 1 → ∃ e, fetch d wd path = .error (.database e)) ∧
      (∀ cat t s, Catalog.ofImage img = .ok cat → cat.relation? servedName = some (.table t) →
        Scan.ofTable t = .ok s → Recurs (Walk.DescendsLeft img) s.root →
        fetch d wd path = .error (.database (.store .malformed))) ∧
      ∀ c : Cell, c.Bounded img := by
  constructor
  · unfold fetch
    split
    · exact .database _
    · split
      · exact .database _
      · exact Fetch.ofImage_ends _
  · intro img hnul hopen
    have hfetch : fetch d wd path = Fetch.ofImage img := by
      unfold fetch
      rw [if_neg (by rw [hnul]; exact Bool.false_ne_true), hopen]
    obtain ⟨hfile, hcontent⟩ := openImage_inFile hopen
    refine ⟨hfetch, hcontent, fun n p hp => ?_, fun content hsame => ?_, fun h => ?_, fun cat t s hcat ht hs h => ?_,
      Cell.bounded img⟩
    · unfold Image.page at hp
      split at hp
      · cases hp
      · next hn =>
        cases hp
        simp only [Bool.or_eq_true, decide_eq_true_eq, not_or] at hn
        exact ⟨hfile.within n (by omega) (by omega), rfl⟩
    · refine fetch_confined img content fun n _ => ?_
      cases hp : img.page n with
      | ok p => rw [hsame n ⟨p, hp⟩, hp]
      | error e => exact Image.page_holding hp
    · obtain ⟨e, he⟩ := Fetch.ofImage_of_schema h
      exact ⟨.store e, hfetch.trans he⟩
    · exact hfetch.trans (Fetch.ofImage_of_table hcat ht hs h)

/-! ## Pages that are their own children -/

namespace Cyclic

/-- An interior page of a table, all of whose children are one page. -/
def inner (front : List UInt8) (child : UInt8) : List UInt8 :=
  let head := front ++ [5, 0, 0, 0, 1, 0, 0, 0, 0, 0, 0, child, 1, 0xF4]
  head ++ List.replicate (500 - head.length) 0 ++ [0, 0, 0, child, 1] ++ List.replicate 7 0

/-- A file whose only page is its own child. -/
def schemaOctets : List UInt8 := inner (Small.header 1) 1

def schemaImage : Image := Small.image schemaOctets 1

/-- A file with a table whose root is its own child. -/
def tableOctets : List UInt8 :=
  Small.leaf (Small.header 2) .table [Numbered.declaration] ++ inner [] 2

def tableImage : Image := Small.image tableOctets 2

theorem schema_page : schemaOctets.length = 1 * 512 ∧ Store.Node schemaImage .table 1 false 1 ∧
    schemaImage.lastAt 1 = 1 := by
  decide +kernel

theorem schema_descends : Walk.Descends schemaImage 1 1 := by
  obtain ⟨-, hnode, hlast⟩ := schema_page
  refine ⟨_, hnode.load_eq Small.proper, rfl, List.mem_append_right _ ?_⟩
  rw [hnode.lastChild_eq Small.proper, hlast]
  exact List.mem_singleton_self _

theorem schema_opens : openImage (Small.disk schemaImage) [] (Text.Utf8.ofString "/t") = .ok schemaImage :=
  openImage_eq (Small.leads rfl) (Small.fileHeader (by decide) (by decide) schema_page.1 (by decide))

theorem table_page : tableOctets.length = 2 * 512 ∧ Small.HasEntries tableOctets 1 .table [Numbered.declaration] ∧
    Store.Node tableImage .table 2 false 1 ∧ tableImage.cellAt 2 false 0 = 500 ∧ tableImage.childAt 2 0 = 2 := by
  decide +kernel

theorem table_descends : Walk.DescendsLeft tableImage 2 2 := by
  obtain ⟨-, -, hnode, hcell, hchild⟩ := table_page
  refine ⟨_, hnode.load_eq Small.proper, rfl, ?_⟩
  rw [hnode.childBefore_eq Small.proper Nat.one_pos (by rw [hcell]; decide), hchild]

def catalog : Catalog :=
  ((Catalog.Sum.initial tableImage).catalog.add tableImage (Numbered.declaration.description tableImage)).1

theorem catalog_spec :
    ((Catalog.Sum.initial tableImage).catalog.add tableImage (Numbered.declaration.description tableImage)).2 = none ∧
    ((catalog.relation? servedName).bind Relation.table?).map (fun t => (t.root, t.withoutRowid)) = some (2, false) := by
  decide +kernel

theorem database : Database tableImage.content tableImage [Numbered.declaration] catalog where
  header := Small.fileHeader (by decide) (by decide) table_page.1 (by decide)
  mapped h := by cases h
  schema := ⟨0, by decide, table_page.2.1.leaf table_page.1 (Small.isPage (by decide) (by decide) (by decide))⟩
  catalog := .cons (Prod.ext rfl catalog_spec.1) .nil

theorem table_opens : openImage (Small.disk tableImage) [] (Text.Utf8.ofString "/t") = .ok tableImage :=
  openImage_eq (Small.leads rfl) database.header

end Cyclic

/-- Nothing is fetched where the page of the schema is its own child, nor where the root of the table is its own first
child. -/
theorem fetch_ends_cyclic :
    (∃ e, fetch (Small.disk Cyclic.schemaImage) [] "/t" = .error (.database e)) ∧
    fetch (Small.disk Cyclic.tableImage) [] "/t" = .error (.database (.store .malformed)) := by
  obtain ⟨-, hschema⟩ := fetch_ends (Small.disk Cyclic.schemaImage) [] "/t"
  obtain ⟨-, htable⟩ := fetch_ends (Small.disk Cyclic.tableImage) [] "/t"
  obtain ⟨-, -, -, -, hschema, -⟩ := hschema _ Small.path_nul Cyclic.schema_opens
  obtain ⟨-, -, -, -, -, htable, -⟩ := htable _ Small.path_nul Cyclic.table_opens
  refine ⟨hschema ⟨1, .refl, .single Cyclic.schema_descends⟩, ?_⟩
  obtain ⟨t, ht, hspec⟩ := Catalog.exists_table Cyclic.catalog_spec.2
  obtain ⟨hroot, hrows⟩ := Prod.mk.inj hspec
  refine htable _ t _ Cyclic.database.ofImage_eq ht (Scan.ofTable_numbered hrows) ?_
  exact ⟨2, hroot ▸ .refl, .single Cyclic.table_descends⟩

end FirstRow
