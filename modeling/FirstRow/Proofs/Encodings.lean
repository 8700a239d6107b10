import FirstRow.Proofs.Agreement
import FirstRow.Proofs.Columns
import FirstRow.Proofs.Reassembly
import FirstRow.Proofs.StorageOrder

/-!
# Texts in every encoding

What is served of texts is the texts themselves, in whatever encoding a database has them. `KeepsTexts` says of a world
that its store has a table `test` by a certain statement and a first row with certain texts, all of them written in the
encoding of the store; what is fetched and answered is then a matter of the two texts alone. The schema says the same in
every encoding, so its entries are read and the table is found.
-/
namespace FirstRow

/-! ## Texts without a mark -/

/-- A text whose first octet in UTF-8 is a character of ASCII begins with that character. -/
theorem Text.Utf8.exists_head_of_ascii {s : List Char} {b : UInt8} (h : (encode s).head? = some b) (hb : b < 0x80) :
    ∃ c rest, s = c :: rest ∧ c.toNat < 0x80 := by
  cases s with
  | nil => cases h
  | cons c rest =>
    have hmem : b ∈ encodePoint c.toNat := by
      rw [encode_cons] at h
      cases hpoint : encodePoint c.toNat with
      | nil => exact absurd hpoint (encodePoint_ne_nil _)
      | cons first others =>
        rw [hpoint, List.cons_append, List.head?_cons, Option.some.injEq] at h
        exact h ▸ List.mem_cons_self
    refine ⟨c, rest, rfl, ?_⟩
    rw [(mem_encodePoint_iff hb c).mp hmem]
    exact UInt8.lt_iff_toNat_lt.mp hb

/-- Letters of ASCII have letters of ASCII in lower case. -/
theorem Text.Octet.lt_of_lower {b : UInt8} (h : lower b < 0x80) : b < 0x80 := by
  unfold lower at h
  split at h
  · next hletter =>
    simp only [Bool.and_eq_true, decide_eq_true_eq, UInt8.le_iff_toNat_le, UInt8.reduceToNat] at hletter
    simp only [UInt8.lt_iff_toNat_lt, UInt8.reduceToNat]
    omega
  · exact h

/-- A text that begins with a letter of ASCII, in some letter case, begins with a character of ASCII. -/
theorem Text.Utf8.exists_head_of_lower {s : List Char} {b : UInt8} (hb : b < 0x80)
    (h : (encode s).head?.map Octet.lower = some b) : ∃ c rest, s = c :: rest ∧ c.toNat < 0x80 := by
  obtain ⟨first, hfirst, rfl⟩ := Option.map_eq_some_iff.mp h
  exact exists_head_of_ascii hfirst (Octet.lt_of_lower hb)

namespace Store

open FirstRow.Sql

variable {e : Encoding} {s : List Char} {content : Content}

/-- The octets of a text in an encoding. -/
def Encoding.encode : Encoding → List Char → List UInt8
  | .utf8, s => Text.Utf8.encode s
  | .utf16 order, s => Text.Utf16.encode order s

/-- A text that is written has the octets of its encoding. -/
theorem Written.octets_eq {d : Datum} (h : Written e d content) (hd : d = .text (Text.Utf8.encode s)) :
    content.octets = e.encode s := by
  cases h with
  | utf8 bs he =>
    rw [he]
    exact Datum.text.inj hd
  | utf16 t he =>
    rw [he, Text.Utf8.encode_injective (Datum.text.inj hd)]
    rfl
  | null | integer | zero | one | real | blob => cases hd

/-- No text that begins with a character of ASCII begins with a byte-order mark. -/
theorem Written.not_beginsWithMark (h : Written e (.text (Text.Utf8.encode s)) content)
    (hhead : ∃ c rest, s = c :: rest ∧ c.toNat < 0x80) : ¬e.beginsWithMark content.octets := by
  obtain ⟨c, rest, rfl, hc⟩ := hhead
  rw [h.octets_eq rfl]
  cases e with
  | utf8 => exact id
  | utf16 order =>
    have hunits : Text.Utf16.unitsOfPoint c.toNat = [c.toNat] := if_pos (by omega)
    have hzero : (c.toNat / 0x100).toUInt8 = 0 := by rw [Nat.div_eq_of_lt (by omega)]; rfl
    simp only [Encoding.beginsWithMark, Encoding.encode, Text.Utf16.encode, List.flatMap_cons, hunits, List.flatMap_nil,
      List.append_nil]
    cases order <;> simp [Text.Utf16.Order.octets, hzero]

/-- A text of the schema that begins with a character of ASCII is read. -/
theorem Entry.textOf_value? {img : Image} {x : Entry} {k : Nat} (hc : x.contents[k]? = some content)
    (h : Written img.encoding (.text (Text.Utf8.encode s)) content) (hhead : ∃ c rest, s = c :: rest ∧ c.toNat < 0x80)
    (hnul : '\x00' ∉ s) :
    (x.value? img .table k).bind (SchemaEntry.textOf img.encoding) = some (Text.Utf8.encode s) := by
  rw [value?_of_written hc h fun _ _ _ _ _ => h.not_beginsWithMark hhead, Option.bind_some]
  refine congrArg some (List.takeWhile_eq_self_iff.mpr fun b hb => ?_)
  rw [decide_eq_true_eq]
  rintro rfl
  exact hnul (Text.Utf8.zero_mem_encode.mp hb)

/-! ## The first row -/

/-- A column of an entry has a text: as a field in the encoding of the image, or where the record lacks it as the
default of the column, a literal. Of a long text that is not all on its page no byte-order mark is dropped. -/
inductive Entry.HasText (D : TableDeclaration) (img : Image) (kind : TreeKind) (x : Entry) (p : Nat)
    (c : ColumnDeclaration) (s : List Char) : Prop where
  | field {content : Content} : x.contents[p]? = some content →
      Written img.encoding (.text (Text.Utf8.encode s)) content →
      (kind = .table → 4000 < content.octets.length → x.kept < x.offset p + content.octets.length →
        ¬img.encoding.beginsWithMark content.octets) → HasText D img kind x p c s
  | default {e : Expr} {v : Datum} : x.contents.length ≤ p → c.computed = none → c.default = some e →
      Default.Literal e v → Default.kept (D.affinity c) e v = .text (Text.Utf8.encode s) → HasText D img kind x p c s

/-- The text is what is read of the column. -/
theorem Entry.HasText.columnAt_eq {D : TableDeclaration} {img : Image} {kind : TreeKind} {x : Entry} {p : Nat}
    {c : ColumnDeclaration} (h : x.HasText D img kind p c s) {column : Column} {look : Expr → Expr}
    (hcolumn : column.SettledAs c (D.affinity c) look) :
    x.columnAt img kind p column = .text (Text.Utf8.encode s) := by
  have hread := (D.affinity c).onRead_text (Text.Utf8.encode s)
  rw [columnAt, hcolumn.affinity]
  cases h with
  | field hcontent hwritten hmark =>
    rw [value?_of_written hcontent hwritten fun _ _ => hmark, Option.getD_some]
    exact hread
  | default hlacking hplain hdefault hliteral hkept =>
    have hnone : x.value? img kind p = none := by
      rw [value?, List.getElem?_eq_none hlacking, Option.map_none]
    have hmissing : column.missing img.encoding = .text (Text.Utf8.encode s) := by
      rw [Column.missing, (hcolumn.plain hplain).2, hdefault, hcolumn.affinity]
      exact (hliteral.defaultValue_eq img.encoding _).trans hkept
    rw [hnone, Option.getD_none, hmissing]
    exact hread

end Store

namespace Sql

open FirstRow.Store

/-- The first row of a table has a text in each of its first two columns. Where rows have numbers, both are stored and
neither stands for the number; where they have none, each is at its first place in the index that is read. -/
inductive Table.BeginsWith (img : Image) (D : TableDeclaration) (s : Fin 2 → List Char) (t : Table) : Prop where
  | numbered {levels : Nat} {x : Entry} {rest : List Entry} : t.withoutRowid = false → levels ≤ Walk.maxDescents →
      Tree img .table levels t.root (x :: rest) → (∀ c ∈ t.columns.take 2, c.isStored = true) →
      (∀ i : Fin 2, ¬D.IsAlias i ∧ ∃ c, D.columns[i.val]? = some c ∧ x.HasText D img .table i c (s i)) →
      BeginsWith img D s t
  | unnumbered {ix : Index} {levels : Nat} {x : Entry} {rest : List Entry} : t.withoutRowid = true →
      Scan.Chosen t t.indexes ix → levels ≤ Walk.maxDescents → Tree img .index levels ix.root (x :: rest) →
      (∀ i : Fin 2, ∃ c p, D.columns[i.val]? = some c ∧ ix.columns.findIdx? (·.column = some i.val) = some p ∧
        x.HasText D img .index p c (s i)) →
      BeginsWith img D s t

/-- The row that is read of the table begins with the two texts. -/
theorem Table.BeginsWith.firstRow?_eq {img : Image} {D : TableDeclaration} {s : Fin 2 → List Char} {t : Table}
    (h : t.BeginsWith img D s) (hp : img.Proper) (hm : img.isMapped = true → img.Mapped) (ht : t.DeclaredAs D) :
    ∃ ds, Scan.firstRow? img t = .ok (some ds) ∧ ∀ i : Fin 2, ds[i.val]? = some (.text (Text.Utf8.encode (s i))) := by
  have hcolumn {i : Nat} {c : ColumnDeclaration} (hc : D.columns[i]? = some c) :
      ∃ column, t.columns[i]? = some column ∧ column.SettledAs c (D.affinity c) t.lookedUp := by
    obtain ⟨hlt, -⟩ := List.getElem?_eq_some_iff.mp hc
    rw [← ht.length_eq] at hlt
    have hcolumn := List.getElem?_eq_getElem hlt
    exact ⟨_, hcolumn, ht.column i c _ hc hcolumn⟩
  cases h with
  | @numbered levels x rest hrows hlevels htree hstored htexts =>
    refine ⟨_, Scan.firstRow?_numbered hp hm hrows hlevels htree, fun i => ?_⟩
    obtain ⟨halias, c, hc, htext⟩ := htexts i
    obtain ⟨column, hcolumn, hsettled⟩ := hcolumn hc
    -- The first two columns are stored, so the first two fields are theirs, whatever is behind them.
    have hsource : (Scan.rowidSources t.rowidColumn 0 0 t.columns)[i.val]? = some (.field i) := by
      obtain ⟨hlt, -⟩ := List.getElem?_eq_some_iff.mp hcolumn
      have hlength : i.val < (t.columns.take 2).length := by
        rw [List.length_take]
        omega
      rw [← List.take_append_drop 2 t.columns, Scan.rowidSources_append hstored,
        List.getElem?_append_left (by simpa using hlength), List.getElem?_map, List.getElem?_range' hlength,
        Option.map_some, Nat.one_mul, Nat.zero_add, if_neg fun h => halias ((ht.rowidColumn hrows i).mp h)]
    have hpair := List.getElem?_zip_eq_some (z := (column, Source.field i)) |>.mpr ⟨hcolumn, hsource⟩
    rw [List.getElem?_map, hpair, Option.map_some]
    exact congrArg some (htext.columnAt_eq hsettled)
  | @unnumbered ix levels x rest hrows hchosen hlevels htree htexts =>
    refine ⟨_, Scan.firstRow?_index hp hm hrows hchosen hlevels htree, fun i => ?_⟩
    obtain ⟨c, p, hc, hp, htext⟩ := htexts i
    obtain ⟨column, hcolumn, hsettled⟩ := hcolumn hc
    rw [Entry.rowOf, List.getElem?_mapIdx, hcolumn, Option.map_some, hp]
    exact congrArg some (htext.columnAt_eq hsettled)

end Sql

/-! ## Stores -/

open FirstRow.Sql FirstRow.Store

/-- An entry of a schema has a type, a name and a statement, each of them a text in the encoding of the image. -/
structure Store.Entry.Spells (img : Image) (x : Entry) (type name sql : List Char) : Prop where
  type : ∃ c, x.contents[0]? = some c ∧ Written img.encoding (.text (Text.Utf8.encode type)) c
  name : ∃ c, x.contents[1]? = some c ∧ Written img.encoding (.text (Text.Utf8.encode name)) c
  sql : ∃ c, x.contents[4]? = some c ∧ Written img.encoding (.text (Text.Utf8.encode sql)) c

/-- A statement declares a table with the name that is served, as an entry of a schema has them. -/
structure Declares (name sql : List Char) (D : TableDeclaration) : Prop where
  name : Text.Octet.same servedName (Text.Utf8.encode name) = true
  hasStatement : SchemaEntry.hasStatement (Text.Utf8.encode sql) = true
  nul : '\x00' ∉ sql
  declaration : TableDeclaration.ofSql? (Text.Utf8.encode sql) = some D

namespace Declares

variable {name sql : List Char} {D : TableDeclaration}

theorem exists_head_name (h : Declares name sql D) : ∃ c rest, name = c :: rest ∧ c.toNat < 0x80 := by
  refine Text.Utf8.exists_head_of_lower (show (0x74 : UInt8) < 0x80 by decide) ?_
  rw [← List.head?_map, ← Text.Octet.same_iff.mp h.name]
  rfl

theorem nul_name (h : Declares name sql D) : '\x00' ∉ name := by
  intro hnul
  have hmem : Text.Octet.lower 0 ∈ (Text.Utf8.encode name).map Text.Octet.lower :=
    List.mem_map_of_mem (Text.Utf8.zero_mem_encode.mpr hnul)
  rw [← Text.Octet.same_iff.mp h.name] at hmem
  exact absurd hmem (by decide)

theorem exists_head_sql (h : Declares name sql D) : ∃ c rest, sql = c :: rest ∧ c.toNat < 0x80 := by
  refine Text.Utf8.exists_head_of_lower (show (0x63 : UInt8) < 0x80 by decide) ?_
  have hspells := h.hasStatement
  rw [SchemaEntry.hasStatement, Text.Octet.spells, decide_eq_true_eq] at hspells
  have hhead := congrArg List.head? hspells
  rwa [List.head?_map, List.head?_take, if_neg (by decide)] at hhead

/-- An entry that has them says that it declares the table, in every encoding. -/
theorem entry (h : Declares name sql D) {img : Image} {x : Entry} (hx : x.Spells img "table".toList name sql) :
    (x.description img).Declares servedName ∧ (x.description img).declaration? = some D := by
  obtain ⟨c₀, hc₀, htype⟩ := hx.type
  obtain ⟨c₁, hc₁, hname⟩ := hx.name
  obtain ⟨c₄, hc₄, hsql⟩ := hx.sql
  have htype := Entry.textOf_value? hc₀ htype ⟨_, _, rfl, by decide⟩ (by decide)
  have hname := Entry.textOf_value? hc₁ hname h.exists_head_name h.nul_name
  have hsql := Entry.textOf_value? hc₄ hsql h.exists_head_sql h.nul
  have hstatement : (x.description img).sql.getD [] = Text.Utf8.encode sql := by
    rw [Entry.description]
    simp only [hsql, Option.getD_some]
  refine ⟨⟨⟨_, htype, by decide⟩, ⟨_, hname, h.name⟩, ?_⟩, ?_⟩
  · rw [hstatement]
    exact h.hasStatement
  · rw [SchemaEntry.declaration?, hstatement]
    exact h.declaration

end Declares

/-- The location of a world leads to a store whose table is declared by a statement, and whose first row begins with two
texts, all of them in the encoding of the store. The entry of the table is the only one of its name. -/
structure KeepsTexts (w : World) (url : String) (img : Image) (name sql : List Char) (D : TableDeclaration)
    (s : Fin 2 → List Char) : Prop where
  location : w.settings.databaseUrl = some url
  nul : (Location.path url).toList.contains '\x00' = false
  store : ∃ content xs cat x,
    Leads w.disk w.workingDirectory (Text.Utf8.ofString (Location.path url)) content img.isWritable ∧
    Database content img xs cat ∧ x ∈ xs ∧ x.Spells img "table".toList name sql ∧
    (∀ y ∈ xs, (y.description img).IsOf "table" ∨ (y.description img).IsOf "view" →
      (y.description img).IsNamed servedName → y = x) ∧
    ∀ t, cat.relation? servedName = some (.table t) → t.BeginsWith img D s

/-- The two texts, as they are served. -/
def rowOfTexts (s : Fin 2 → List Char) : Row :=
  ⟨.string (String.ofList (s 0)), .string (String.ofList (s 1))⟩

/-- What is fetched are the two texts. -/
theorem KeepsTexts.fetch_eq {w : World} {url : String} {img : Image} {name sql : List Char} {D : TableDeclaration}
    {s : Fin 2 → List Char} (h : KeepsTexts w url img name sql D s) (hsql : Declares name sql D) :
    fetch w.disk w.workingDirectory (Location.path url) = .ok (some (rowOfTexts s)) := by
  have hspells : Text.Octet.spells "sqlite_schema" servedName = false := by decide
  have hmaster : Text.Octet.same Catalog.schemaName servedName = false := by decide
  obtain ⟨content, xs, cat, x, hleads, hdatabase, hx, hentry, hunique, hbegins⟩ := h.store
  obtain ⟨hdeclares, hdeclaration⟩ := hsql.entry hentry
  have hone (r : SchemaEntry) (hr : r ∈ xs.map (Entry.description img)) (htype : r.IsOf "table" ∨ r.IsOf "view")
      (hname : r.IsNamed servedName) : r = x.description img := by
    obtain ⟨y, hy, rfl⟩ := List.mem_map.mp hr
    rw [hunique y hy htype hname]
  obtain ⟨t, ht⟩ := hdatabase.catalog.exists_table hspells hmaster (List.mem_map_of_mem hx) hdeclares
    (by rw [hdeclaration]; rfl) hone
  obtain ⟨r, hr, htype, hname, D', hD', hdeclared⟩ := hdatabase.catalog.declaredAs hspells hmaster ht
  obtain rfl := hone r hr (.inl htype) hname
  obtain rfl : D = D' := Option.some.inj (hdeclaration.symm.trans hD')
  obtain ⟨ds, hfirst, hds⟩ := (hbegins t ht).firstRow?_eq hdatabase.header.proper hdatabase.mapped hdeclared
  rw [(hdatabase.serves h.nul hleads ht).fetch_of_some hfirst]
  match ds, hds 0, hds 1 with
  | a :: b :: rest, ha, hb =>
    cases ha
    cases hb
    exact congrArg (some <$> ·) (Fetch.Served.row_eq (.both (.text (s 0)) (.text (s 1))))
  | [a], _, hb => cases hb
  | [], ha, _ => cases ha

/-- What is answered to a request for the first row says the two texts. -/
theorem KeepsTexts.answer_eq {w : World} {url : String} {img : Image} {name sql : List Char} {D : TableDeclaration}
    {s : Fin 2 → List Char} (h : KeepsTexts w url img name sql D s) (hsql : Declares name sql D) {uri : String}
    (huri : Http.Uri.path uri.toList = .ok "/get-data/".toList) :
    ∃ events, (w.request "GET" uri).2 = .reply (.json (Payload.ofRow? (some (rowOfTexts s))).text) events := by
  obtain ⟨m, hget, hanswer⟩ := w.request_data (.inl rfl) huri
  refine ⟨_, hanswer.trans (congrArg (Answer.reply · _) ?_)⟩
  rw [hget rfl]
  simp only [Server.serve, h.location, h.fetch_eq hsql]
  rfl

/-- Two entries of schemas have the same values, each in the encoding of its image. No value is a blob, and no
byte-order mark of a text is dropped. -/
structure Store.Entry.SameIn (img img' : Image) (x x' : Entry) : Prop where
  values : ∃ vs, (∀ v ∈ vs, ∀ bs, v ≠ .blob bs) ∧ List.Forall₂ (Written img.encoding) vs x.contents ∧
    List.Forall₂ (Written img'.encoding) vs x'.contents
  unmarked : x.Unmarked img .table
  unmarked' : x'.Unmarked img' .table

/-- The same values say the same of an object. -/
theorem Store.Entry.SameIn.description_eq {img img' : Image} {x x' : Entry} (h : x.SameIn img img' x') :
    x'.description img' = x.description img := by
  obtain ⟨vs, hvs, hwritten, hwritten'⟩ := h.values
  have htext (k : Nat) : (x'.value? img' .table k).bind (SchemaEntry.textOf img'.encoding) =
      (x.value? img .table k).bind (SchemaEntry.textOf img.encoding) := by
    rw [value?_eq hwritten h.unmarked, value?_eq hwritten' h.unmarked']
    cases hv : vs[k]? with
    | none => rfl
    | some v =>
      have hblob := hvs v (List.mem_of_getElem? hv)
      rw [Option.map_some, Option.bind_some, Option.bind_some]
      cases v with
      | real y =>
        simp only [Datum.settled]
        split <;> rfl
      | blob bs => exact absurd rfl (hblob bs)
      | null | integer | text => rfl
  rw [description, description]
  simp only [htext]

theorem Store.Entry.descriptions_eq {img img' : Image} {xs xs' : List Entry}
    (h : List.Forall₂ (Entry.SameIn img img') xs xs') :
    xs'.map (Entry.description img') = xs.map (Entry.description img) := by
  induction h with
  | nil => rfl
  | cons hx _ ih => rw [List.map_cons, List.map_cons, hx.description_eq, ih]

/-- A schema with the same values describes the same objects in another encoding. -/
theorem Store.Database.transcribed {content content' : ByteArray} {img img' : Image} {xs xs' : List Entry}
    {cat : Catalog} (h : Database content img xs cat) (hheader : FileHeader content' img')
    (hmapped : img'.isMapped = true → img'.Mapped)
    (hschema : ∃ levels ≤ Walk.maxDescents, Tree img' .table levels 1 xs')
    (hpages : img.pageCount ≤ img'.pageCount) (hwritable : img'.isWritable = img.isWritable)
    (hsame : List.Forall₂ (Entry.SameIn img img') xs xs') : Database content' img' xs' cat where
  header := hheader
  mapped := hmapped
  schema := hschema
  catalog := by
    rw [Entry.descriptions_eq hsame, Catalog.initial_congr hwritable]
    exact h.catalog.congr hpages hwritable

/-- What is fetched of a store whose first row begins with two texts, and what is answered to a request for the first
row, are those texts in whatever encoding the store is, and the same for every two stores. Stores share the name of the
table, its statement and the texts; layouts may differ. The schema can be taken over into another encoding: where it has
the same values it describes the same objects. -/
theorem fetch_in_every_encoding {w : World} {url : String} {img : Image} {name sql : List Char} {D : TableDeclaration}
    {s : Fin 2 → List Char} (hsql : Declares name sql D) (h : KeepsTexts w url img name sql D s) :
    fetch w.disk w.workingDirectory (Location.path url) =
        .ok (some ⟨.string (String.ofList (s 0)), .string (String.ofList (s 1))⟩) ∧
      (∀ uri, Http.Uri.path uri.toList = .ok "/get-data/".toList → ∃ r events,
        (w.request "GET" uri).2 = .reply r events ∧
        r = .json (Payload.row ⟨.string (String.ofList (s 0)), .string (String.ofList (s 1))⟩).text ∧
        ∀ {w' : World} {url' : String} {img' : Image}, KeepsTexts w' url' img' name sql D s →
          fetch w'.disk w'.workingDirectory (Location.path url') = fetch w.disk w.workingDirectory (Location.path url) ∧
          ∃ events', (w'.request "GET" uri).2 = .reply r events') ∧
      ∀ {content content' : ByteArray} {img' : Image} {xs xs' : List Entry} {cat : Catalog},
        Database content img xs cat → FileHeader content' img' → (img'.isMapped = true → img'.Mapped) →
        (∃ levels ≤ Walk.maxDescents, Tree img' .table levels 1 xs') → img.pageCount ≤ img'.pageCount →
        img'.isWritable = img.isWritable → List.Forall₂ (Entry.SameIn img img') xs xs' →
        Database content' img' xs' cat := by
  refine ⟨h.fetch_eq hsql, fun uri huri => ?_, fun hdatabase => hdatabase.transcribed⟩
  obtain ⟨events, hanswer⟩ := h.answer_eq hsql huri
  refine ⟨_, events, hanswer, rfl, fun h' => ⟨?_, h'.answer_eq hsql huri⟩⟩
  rw [h'.fetch_eq hsql, h.fetch_eq hsql]

/-! ## One content in three encodings -/

namespace Encoded

def encodings : List Encoding :=
  [.utf8, .utf16 .littleEndian, .utf16 .bigEndian]

def name : List Char := "Test".toList

/-- A statement with a character as the default of the second column. -/
def sql (d : Char) : List Char := "CREATE TABLE Test(a,b DEFAULT '".toList ++ d :: "')".toList

/-- A NUL and a character above U+FFFF. -/
def first : List Char := "\x00😀".toList

variable (e : Encoding) (d : Char)

/-- A text in an encoding. -/
def text (s : List Char) : Content :=
  ⟨13 + 2 * (e.encode s).length, if (e.encode s).length < 58 then 1 else 2, e.encode s⟩

def declaration : Entry :=
  Small.entry 1 [text e "table".toList, text e name, text e name, ⟨1, 1, [2]⟩, text e (sql d)]

/-- The record has the first column only. -/
def row : Entry :=
  Small.entry 1 [text e first]

def octets : List UInt8 :=
  Small.leaf (Small.headerIn e 2) .table [declaration e d] ++ Small.leaf [] .table [row e]

def img : Image := Small.imageIn e (octets e d) 2

def catalog : Catalog :=
  ((Catalog.Sum.initial (img e d)).catalog.add (img e d) ((declaration e d).description (img e d))).1

/-- The location leads to the store. -/
def world : World :=
  { World.fresh [] with
    disk := Small.disk (img e d), settings := { Settings.unconfigured with databaseUrl := some "/t" } }

variable {e d}

theorem written (s : List Char) : Written e (.text (Text.Utf8.encode s)) (text e s) := by
  cases e with
  | utf8 => exact .utf8 _ rfl
  | utf16 order => exact .utf16 _ rfl

/-- The pages hold the entries, and no text is long. -/
theorem pages_spec (hd : d = 'é' ∨ d = '\uFFFE') : ∀ e ∈ encodings, ((octets e d).length = 2 * 512 ∧
    (octets e d).take 100 = Small.headerIn e 2 ∧ Small.HasEntries (octets e d) 1 .table [declaration e d] ∧
    Small.HasEntries (octets e d) 2 .table [row e]) ∧
    (∀ c ∈ (declaration e d).contents, c.octets.length ≤ 4000) ∧ (text e first).octets.length ≤ 4000 := by
  rcases hd with rfl | rfl
  · decide +kernel
  · decide +kernel

theorem catalog_spec (hd : d = 'é' ∨ d = '\uFFFE') : ∀ e ∈ encodings,
    ((Catalog.Sum.initial (img e d)).catalog.add (img e d) ((declaration e d).description (img e d))).2 = none ∧
    ((((catalog e d).relation? servedName).bind Relation.table?).map fun t =>
      (t.root, t.withoutRowid, t.rowidColumn, t.columns.map (·.isStored))) = some (2, false, none, [true, true]) := by
  rcases hd with rfl | rfl
  · decide +kernel
  · decide +kernel

/-- The content of an expression that is a string. -/
def string? : Expr → Option (List UInt8)
  | .string s => some s
  | _ => none

theorem eq_of_string? {x : Expr} {s : List UInt8} (h : string? x = some s) : x = .string s := by
  unfold string? at h
  split at h
  · exact congrArg Expr.string (Option.some.inj h)
  · cases h

set_option synthInstance.maxSize 400 in
theorem declaration_spec : (TableDeclaration.ofSql? (Text.Utf8.encode (sql 'é'))).map (fun D =>
    (D.keys, D.columns.map fun c => (D.affinity c, c.computed.isNone, c.default.bind string?))) =
      some ([], [(.blob, true, none), (.blob, true, some (Text.Utf8.ofString "é"))]) := by
  decide +kernel

theorem database (he : e ∈ encodings) (hd : d = 'é' ∨ d = '\uFFFE') :
    Database (img e d).content (img e d) [declaration e d] (catalog e d) := by
  obtain ⟨⟨hlength, hfront, hschema, -⟩, -⟩ := pages_spec hd e he
  exact {
    header := Small.fileHeader (by decide) (by decide) hlength hfront
    mapped := fun h => by cases h
    schema := ⟨0, by decide, hschema.leaf hlength (Small.isPage Nat.one_pos (by decide) (by decide))⟩
    catalog := .cons (Prod.ext rfl (catalog_spec hd e he).1) .nil }

/-- The table has its row at the second page. -/
theorem table_spec (he : e ∈ encodings) (hd : d = 'é' ∨ d = '\uFFFE') :
    ∃ t, (catalog e d).relation? servedName = some (.table t) ∧ t.withoutRowid = false ∧ t.rowidColumn = none ∧
      t.columns.map (·.isStored) = [true, true] ∧ Tree (img e d) .table 0 t.root [row e] := by
  obtain ⟨⟨hlength, -, -, hrow⟩, -⟩ := pages_spec hd e he
  obtain ⟨t, ht, hspec⟩ := Catalog.exists_table (catalog_spec hd e he).2
  simp only [Prod.mk.injEq] at hspec
  obtain ⟨hroot, hrows, hrowid, hstored⟩ := hspec
  have htree : Tree (img e d) .table 0 2 [row e] :=
    hrow.leaf hlength (Small.isPage Nat.two_pos le_rfl (by decide))
  exact ⟨t, ht, hrows, hrowid, hstored, hroot ▸ htree⟩

/-- The store has the texts in every encoding. -/
theorem keepsTexts (he : e ∈ encodings) {D : TableDeclaration} (hkeys : D.keys = [])
    (hcolumns : D.columns.map (fun c => (D.affinity c, c.computed.isNone, c.default.bind string?)) =
      [(.blob, true, none), (.blob, true, some (Text.Utf8.ofString "é"))]) :
    KeepsTexts (world e 'é') "/t" (img e 'é') name (sql 'é') D !["\x00😀".toList, "é".toList] where
  location := rfl
  nul := Small.path_nul
  store := by
    refine ⟨_, _, _, declaration e 'é', Small.leads rfl, database he (.inl rfl), List.mem_singleton_self _,
      ⟨⟨_, rfl, written _⟩, ⟨_, rfl, written _⟩, ⟨_, rfl, written _⟩⟩, fun y hy _ _ => List.mem_singleton.mp hy,
      fun t ht => ?_⟩
    obtain ⟨u, hu, hrows, -, hstored, htree⟩ := table_spec he (.inl rfl)
    obtain rfl : u = t := by simpa [ht] using hu.symm
    have halias (i : Nat) : ¬D.IsAlias i := fun h => by
      have hkey := h.1
      rw [TableDeclaration.KeyOn, hkeys] at hkey
      cases hkey
    refine .numbered hrows (Nat.zero_le _) htree (fun c hc => ?_)
      (Fin.forall_fin_two.mpr ⟨⟨halias 0, ?_⟩, ⟨halias 1, ?_⟩⟩)
    · have hmem : c.isStored ∈ u.columns.map (·.isStored) := List.mem_map_of_mem (List.mem_of_mem_take hc)
      rw [hstored] at hmem
      simpa using hmem
    · obtain ⟨c, hc, -⟩ := TableDeclaration.exists_column_of_map hcolumns (i := 0) rfl
      refine ⟨c, hc, .field rfl (written first) fun _ hlong => absurd hlong ?_⟩
      exact Nat.not_lt.mpr (pages_spec (.inl rfl) e he).2.2
    · obtain ⟨c, hc, hdeclared⟩ := TableDeclaration.exists_column_of_map hcolumns (i := 1) rfl
      simp only [Prod.mk.injEq, Option.isNone_iff_eq_none] at hdeclared
      obtain ⟨hblob, hplain, hdefault⟩ := hdeclared
      obtain ⟨x, hx, hstring⟩ := Option.bind_eq_some_iff.mp hdefault
      obtain rfl := eq_of_string? hstring
      refine ⟨c, hc, .default (Nat.le_refl 1) hplain hx (.string (by simp)) ?_⟩
      rw [hblob]
      rfl

/-- The schema and the row have the same texts in every encoding. -/
theorem sameIn {o : Encoding} (he : e ∈ encodings) (ho : o ∈ encodings) (hd : d = 'é' ∨ d = '\uFFFE') :
    (declaration e d).SameIn (img e d) (img o d) (declaration o d) ∧
      (row e).SameIn (img e d) (img o d) (row o) := by
  have hdeclaration {e : Encoding} (he : e ∈ encodings) : (declaration e d).Unmarked (img e d) .table :=
    fun k c hc _ _ _ hlong => absurd hlong (Nat.not_lt.mpr ((pages_spec hd e he).2.1 c (List.mem_of_getElem? hc)))
  have hrow {e : Encoding} (he : e ∈ encodings) : (row e).Unmarked (img e d) .table := fun k c hc _ _ _ hlong => by
    obtain rfl := List.mem_singleton.mp (List.mem_of_getElem? hc)
    exact absurd hlong (Nat.not_lt.mpr (pages_spec hd e he).2.2)
  have hroot (e : Encoding) : Written e (.integer 2) ⟨1, 1, signedOctets 1 2⟩ :=
    .integer (by decide) (by decide) (by decide)
  refine ⟨⟨⟨[.text (Text.Utf8.encode "table".toList), .text (Text.Utf8.encode name), .text (Text.Utf8.encode name),
    .integer 2, .text (Text.Utf8.encode (sql d))], by simp, ?_, ?_⟩, hdeclaration he, hdeclaration ho⟩,
    ⟨⟨[.text (Text.Utf8.encode first)], by simp, .cons (written _) .nil, .cons (written _) .nil⟩, hrow he, hrow ho⟩⟩
  · exact .cons (written _) (.cons (written _) (.cons (written _) (.cons (hroot _) (.cons (written _) .nil))))
  · exact .cons (written _) (.cons (written _) (.cons (written _) (.cons (hroot _) (.cons (written _) .nil))))

/-- What the columns have of their defaults. -/
theorem missing_spec : ∀ e ∈ encodings,
    (((catalog e '\uFFFE').relation? servedName).bind Relation.table?).map (fun t =>
      t.columns.map fun c => c.type.affinity.onRead (c.missing e)) =
      some [.null, .text (Text.Utf8.encode [if e = .utf8 then '\uFFFE' else '\uFFFD'])] := by
  decide +kernel

/-- A default is made a text in the encoding of the store, where a noncharacter is replaced if that is UTF-16. -/
theorem fetch_default (he : e ∈ encodings) :
    (∃ t, Serves (Small.disk (img e '\uFFFE')) [] "/t" (img e '\uFFFE') t ∧
      Tree (img e '\uFFFE') .table 0 t.root [row e]) ∧
    fetch (Small.disk (img e '\uFFFE')) [] "/t" =
      .ok (some ⟨.string "\x00😀", .string (if e = .utf8 then "\uFFFE" else "\uFFFD")⟩) := by
  obtain ⟨t, ht, hrows, hrowid, hstored, htree⟩ := table_spec he (d := '\uFFFE') (.inr rfl)
  have hserves := (database he (.inr rfl)).serves Small.path_nul (Small.leads rfl) ht
  obtain ⟨c, c', hpair⟩ : ∃ c c', t.columns = [c, c'] :=
    List.length_eq_two.mp (by simpa using congrArg List.length hstored)
  have hmissing := missing_spec e he
  simp only [ht, Relation.table?, Option.bind_some, Option.map_some, hpair, List.map_cons, List.map_nil,
    Option.some.injEq, List.cons.injEq, and_true] at hmissing
  have hfirst : (row e).value? (img e '\uFFFE') .table 0 = some (.text (Text.Utf8.encode first)) :=
    Entry.value?_of_written (d := .text (Text.Utf8.encode first)) (c := text e first) rfl (written first)
      fun _ _ _ hlong => absurd hlong (Nat.not_lt.mpr (pages_spec (.inr rfl) e he).2.2)
  have hread := c.type.affinity.onRead_text (Text.Utf8.encode first)
  have hall : ∀ c ∈ t.columns, c.isStored = true := fun c hc => by
    have hmem : c.isStored ∈ t.columns.map (·.isStored) := List.mem_map_of_mem hc
    rw [hstored] at hmem
    simpa using hmem
  have hrow : (row e).row (img e '\uFFFE') t = [.text (Text.Utf8.encode first),
      .text (Text.Utf8.encode [if e = .utf8 then '\uFFFE' else '\uFFFD'])] := by
    simp only [Entry.row, hpair, hrowid, List.mapIdx_cons, List.mapIdx_nil, reduceCtorEq, if_false, Entry.columnAt,
      hfirst, Option.getD_some, hread]
    rw [← hmissing.2]
    rfl
  refine ⟨⟨t, hserves, htree⟩, ?_⟩
  have hrows := Rows.numbered hrows (Nat.zero_le _) htree
  rw [hserves.fetch_cons hall hrows, hrow, Fetch.Served.row_eq (.both (.text first) (.text _))]
  split <;> rfl

end Encoded

namespace Dropped

/-- The row of `Marked` with a second text. -/
def row : Entry := ⟨1, [⟨8017, 2, Text.Utf16.encode .bigEndian Marked.text⟩, ⟨17, 1, [0, 0x62]⟩], 1, 452⟩

def octets : List UInt8 :=
  Small.leaf (Small.headerIn (.utf16 .bigEndian) 9) .table [Marked.declaration] ++
    Small.single .table (Small.spreadCell row) ++ (List.range 7).flatMap (Small.chainPage row 7)

def img : Image := Small.imageIn (.utf16 .bigEndian) octets 9

theorem row_spec : row.IsRecord ∧ row.payload.length = 4008 ∧ row.offset 0 = 4 ∧ row.offset 1 = 4006 ∧
    (Text.Utf16.encode .bigEndian Marked.text).length = 4002 ∧
    octets.length = 9 * 512 ∧ octets.take 100 = Small.headerIn (.utf16 .bigEndian) 9 ∧
    Small.HasEntries octets 1 .table [Marked.declaration] ∧ Small.HasCells octets 2 .table [Small.spreadCell row] ∧
    Small.HasChain octets row 7 := by
  decide +kernel

theorem file_spec : octets.length = 9 * 512 ∧ octets.take 100 = Small.headerIn (.utf16 .bigEndian) 9 ∧
    Small.HasEntries octets 1 .table [Marked.declaration] ∧ Small.HasCells octets 2 .table [Small.spreadCell row] ∧
    Small.HasChain octets row 7 :=
  row_spec.2.2.2.2.2

theorem leafCell : LeafCell img 2 (img.cellAt 2 true 0) .table row := by
  obtain ⟨hlength, -, -, hcells, hchain⟩ := file_spec
  obtain ⟨-, hpayload, -⟩ := row_spec
  have hkept : Keeps 512 39 477 row.payload.length row.kept := by
    rw [hpayload]
    exact .fitting (by decide) (by decide)
  refine Small.leafCell_spread (by decide) ?_ (by decide) (by decide) (by decide) hkept ?_ (by decide)
    (hchain.chained hlength (by decide) (by decide)) (hcells.holds_single hlength (by decide)).2
  · rw [hpayload]
    decide
  · rw [hpayload]
    decide

theorem leaf : Leaf img .table 2 [row] where
  node := (file_spec.2.2.2.1.holds_single file_spec.1 (by decide)).1
  isRecord _ hx := List.mem_singleton.mp hx ▸ row_spec.1
  cell i x hi := by
    obtain ⟨hlt, rfl⟩ := List.getElem?_eq_some_iff.mp hi
    obtain rfl : i = 0 := by simpa using hlt
    exact leafCell
  ordered _ := List.pairwise_singleton _ _

/-- The schema is that of `Marked`. -/
theorem database : Database img.content img [Marked.declaration] Marked.catalog where
  header := Small.fileHeader (by decide) (by decide) file_spec.1 file_spec.2.1
  mapped h := by cases h
  schema := ⟨0, by decide, file_spec.2.2.1.leaf file_spec.1 (by decide)⟩
  catalog := by
    have hencoding : img.encoding = .utf16 .bigEndian ∧ Marked.img.encoding = .utf16 .bigEndian := ⟨rfl, rfl⟩
    have hwritable : img.isWritable = false ∧ Marked.img.isWritable = false := ⟨rfl, rfl⟩
    have hwritable := hwritable.1.trans hwritable.2.symm
    have hsame : Marked.declaration.description img = Marked.declaration.description Marked.img := by
      simp only [Entry.description, Entry.value?, Entry.textOf, hencoding]
    have hinitial : (Catalog.Sum.initial img).catalog = (Catalog.Sum.initial Marked.img).catalog :=
      Catalog.initial_congr hwritable
    rw [List.map_singleton, hsame, hinitial]
    exact Marked.database.catalog.congr (Nat.le_refl 9) hwritable

theorem written : List.Forall₂ (Written img.encoding)
    [.text (Text.Utf8.encode Marked.text), .text (Text.Utf8.encode ['b'])] row.contents := by
  have hlong : Written img.encoding (.text (Text.Utf8.encode Marked.text))
      ⟨13 + 2 * (Text.Utf16.encode .bigEndian Marked.text).length, 2, Text.Utf16.encode .bigEndian Marked.text⟩ :=
    .utf16 _ rfl
  have hshort : Written img.encoding (.text (Text.Utf8.encode ['b'])) ⟨17, 1, [0, 0x62]⟩ := .utf16 ['b'] rfl
  have htype : 13 + 2 * (Text.Utf16.encode .bigEndian Marked.text).length = 8017 := by rw [row_spec.2.2.2.2.1]
  rw [htype] at hlong
  exact .cons hlong (.cons hshort .nil)

/-- The first text is read without its mark. -/
theorem value?_eq : row.value? img .table 0 = some (.text (Text.Utf8.encode (List.replicate 2000 'a'))) ∧
    row.value? img .table 1 = some (.text (Text.Utf8.encode ['b'])) := by
  obtain ⟨-, -, hoffset, -, hsize, -⟩ := row_spec
  have hserial (asText : List UInt8 → List UInt8) (bs : List UInt8) :
      Datum.ofSerial asText 8017 bs = .text (asText bs) :=
    rfl
  constructor
  · have htext : row.textOf img .table 0 4002 (Text.Utf16.encode .bigEndian Marked.text) =
        Text.Utf8.encode (List.replicate 2000 'a') := by
      unfold Entry.textOf
      rw [hoffset, if_pos ⟨rfl, by decide, by decide⟩]
      exact Marked.toUtf8WithMark_encode _
    simp only [Entry.value?, row, List.getElem?_cons_zero, Option.map_some, hserial, hsize]
    exact congrArg (some <| Datum.text ·) htext
  · exact Entry.value?_of_written (d := .text (Text.Utf8.encode ['b'])) (c := ⟨17, 1, [0, 0x62]⟩) rfl
      (.utf16 ['b'] rfl) fun _ _ _ hlong => absurd hlong (by decide)

theorem fetch_eq : (∃ t, Serves (Small.disk img) [] "/t" img t ∧ Tree img .table 0 t.root [row]) ∧
    fetch (Small.disk img) [] "/t" =
      .ok (some ⟨.string (String.ofList (List.replicate 2000 'a')), .string "b"⟩) := by
  obtain ⟨t, ht, hspec⟩ := Catalog.exists_table Marked.catalog_spec.2
  simp only [Prod.mk.injEq] at hspec
  obtain ⟨hroot, hrows, hrowid, hcolumns⟩ := hspec
  obtain ⟨c, c', hpair⟩ : ∃ c c', t.columns = [c, c'] :=
    List.length_eq_two.mp (by simpa using congrArg List.length hcolumns)
  simp only [hpair, List.map_cons, List.map_nil, List.cons.injEq, Prod.mk.injEq, and_true] at hcolumns
  obtain ⟨⟨hc, -⟩, hc', -⟩ := hcolumns
  have hserves := database.serves Small.path_nul (Small.leads rfl) ht
  have htree : Tree img .table 0 t.root [row] := hroot ▸ leaf
  have hrow : row.row img t = [.text (Text.Utf8.encode (List.replicate 2000 'a')), .text (Text.Utf8.encode ['b'])] := by
    simp only [Entry.row, hpair, hrowid, List.mapIdx_cons, List.mapIdx_nil, reduceCtorEq, if_false, Entry.columnAt,
      Nat.zero_add, value?_eq, Option.getD_some, Affinity.onRead_text]
  refine ⟨⟨t, hserves, htree⟩, ?_⟩
  rw [hserves.fetch_cons (by simp [hpair, hc, hc']) (.numbered hrows (Nat.zero_le _) htree), hrow,
    Fetch.Served.row_eq (.both (.text _) (.text _))]
  rfl

end Dropped

/-- A NUL and a character above U+FFFF are served alike from UTF-8 and both orders of UTF-16, and so is a default. -/
theorem fetch_in_every_encoding_small :
    fetch (Encoded.world .utf8 'é').disk [] (Location.path "/t") = .ok (some ⟨.string "\x00😀", .string "é"⟩) ∧
    (∃ r events, ((Encoded.world .utf8 'é').request "GET" "/get-data/").2 = .reply r events ∧
      fetch (Encoded.world (.utf16 .littleEndian) 'é').disk [] (Location.path "/t") =
        fetch (Encoded.world .utf8 'é').disk [] (Location.path "/t") ∧
      ∃ events', ((Encoded.world (.utf16 .littleEndian) 'é').request "GET" "/get-data/").2 = .reply r events') ∧
    fetch (Encoded.world (.utf16 .bigEndian) 'é').disk [] (Location.path "/t") =
      fetch (Encoded.world .utf8 'é').disk [] (Location.path "/t") := by
  obtain ⟨D, hD, hdeclared⟩ := Option.map_eq_some_iff.mp Encoded.declaration_spec
  obtain ⟨hkeys, hcolumns⟩ := Prod.mk.inj hdeclared
  have hsql : Declares Encoded.name (Encoded.sql 'é') D :=
    ⟨by decide +kernel, by decide +kernel, by decide +kernel, hD⟩
  have hkeeps {e : Encoding} (he : e ∈ Encoded.encodings) := Encoded.keepsTexts he hkeys hcolumns
  obtain ⟨hfetch, hanswer, -⟩ := fetch_in_every_encoding hsql (hkeeps (e := .utf8) (by decide))
  obtain ⟨r, events, hr, -, hsame⟩ := hanswer "/get-data/" (by cbv)
  refine ⟨hfetch, ⟨r, events, hr, ?_⟩, (hsame (hkeeps (e := .utf16 .bigEndian) (by decide))).1⟩
  exact hsame (hkeeps (e := .utf16 .littleEndian) (by decide))

/-- Not all texts are served alike: of a long one in UTF-16 that is not all on its page a byte-order mark is dropped,
and of a default in UTF-16 a noncharacter is replaced, while the schema and the row are the same in UTF-8. -/
theorem texts_not_fetched : ((∃ t, Serves (Small.disk Dropped.img) [] "/t" Dropped.img t ∧
      Tree Dropped.img .table 0 t.root [Dropped.row]) ∧
    List.Forall₂ (Written (.utf16 .bigEndian))
      [.text (Text.Utf8.encode ('\uFEFF' :: List.replicate 2000 'a')), .text (Text.Utf8.encode ['b'])]
      Dropped.row.contents ∧
    fetch (Small.disk Dropped.img) [] "/t" =
      .ok (some ⟨.string (String.ofList (List.replicate 2000 'a')), .string "b"⟩)) ∧
    (∀ e ∈ Encoded.encodings, ∃ t, Serves (Small.disk (Encoded.img e '\uFFFE')) [] "/t"
      (Encoded.img e '\uFFFE') t ∧ Tree (Encoded.img e '\uFFFE') .table 0 t.root [Encoded.row e]) ∧
    (Encoded.declaration .utf8 '\uFFFE').SameIn (Encoded.img .utf8 '\uFFFE')
      (Encoded.img (.utf16 .bigEndian) '\uFFFE') (Encoded.declaration (.utf16 .bigEndian) '\uFFFE') ∧
    (Encoded.row .utf8).SameIn (Encoded.img .utf8 '\uFFFE') (Encoded.img (.utf16 .bigEndian) '\uFFFE')
      (Encoded.row (.utf16 .bigEndian)) ∧
    fetch (Small.disk (Encoded.img .utf8 '\uFFFE')) [] "/t" = .ok (some ⟨.string "\x00😀", .string "\uFFFE"⟩) ∧
    fetch (Small.disk (Encoded.img (.utf16 .bigEndian) '\uFFFE')) [] "/t" =
      .ok (some ⟨.string "\x00😀", .string "\uFFFD"⟩) := by
  obtain ⟨hdeclaration, hrow⟩ := Encoded.sameIn (e := .utf8) (o := .utf16 .bigEndian) (d := '\uFFFE') (by decide)
    (by decide) (.inr rfl)
  exact ⟨⟨Dropped.fetch_eq.1, Dropped.written, Dropped.fetch_eq.2⟩, fun e he => (Encoded.fetch_default he).1,
    hdeclaration, hrow, (Encoded.fetch_default (e := .utf8) (by decide)).2,
    (Encoded.fetch_default (e := .utf16 .bigEndian) (by decide)).2⟩

end FirstRow
