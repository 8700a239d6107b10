import FirstRow.Sql.Draft
import FirstRow.Sql.Statement
import FirstRow.Store.Record
import FirstRow.Store.Walk

/-!
# The catalog

The table whose root is the first page lists the objects of a database. Every entry names an object, the page at which
it is rooted and the statement that made it; the indexes that come with a table have no statement. `Catalog.ofImage`
reads all entries in order. An entry that makes no sense spoils the database, whatever table is asked for.
-/
namespace FirstRow.Store

open FirstRow.Sql

/-- An entry, its values as text. -/
structure SchemaEntry where
  type : Option (List UInt8)
  name : Option (List UInt8)
  table : Option (List UInt8)
  root : Option (List UInt8)
  sql : Option (List UInt8)

namespace SchemaEntry

/-- A value as text up to the first NUL. -/
def textOf (e : Encoding) : Datum → Option (List UInt8)
  | .null => none
  | .integer n => some (Text.Utf8.encode (Decimal.integer n))
  | .real x => some (Text.Utf8.encode x.text)
  | .text bs => some (bs.takeWhile (· ≠ 0))
  | .blob bs => some ((e.toUtf8 bs).takeWhile (· ≠ 0))

/-- The entry in a cell. A value that the record lacks is null. -/
def ofCell (img : Image) (c : Cell) : ChainReader SchemaEntry := do
  let layout ← Record.layout img c 5
  let value (i : Nat) : ChainReader (Option (List UInt8)) := do
    match ← layout.field? i with
    | none => return none
    | some f => return textOf img.encoding (← Record.value img .table c f)
  return ⟨← value 0, ← value 1, ← value 2, ← value 3, ← value 4⟩

/-- Whether a statement is to be read: it begins with the first two letters of `CREATE`. -/
def hasStatement (sql : List UInt8) : Bool :=
  Text.Octet.spells "cr" (sql.take 2)

/-- The number of the root page, which has 32 bits. -/
def pageNumber? (text : List UInt8) : Option Nat :=
  let n := Text.Octet.value text
  if text.isEmpty || !text.all Text.Octet.isDigit || 0x100000000 < n then none else some (n % 0x100000000)

/-- Whether an entry says of an object what its statement says. -/
def agrees (r : SchemaEntry) (type : String) (name table : List UInt8) : Bool :=
  let same (s : List UInt8) (t : Option (List UInt8)) : Bool := (t.map (Text.Octet.same s)).getD false
  same (Text.Utf8.ofString type) r.type && same name r.name && same table r.table

/-- The name by which an entry is called when it is at fault. -/
def title (r : SchemaEntry) : String :=
  match r.name with
  | some n => Text.Utf8.lossyString n
  | none => "?"

end SchemaEntry

/-- Something that has rows. -/
inductive Relation where
  | table (t : Table)
  | virtualTable (name : List UInt8)
  | view (name : List UInt8)

namespace Relation

/-- The name of a relation. -/
def name : Relation → List UInt8
  | table t => t.name
  | virtualTable n | view n => n

/-- The table, if the relation is one that is stored. -/
def table? : Relation → Option Table
  | table t => some t
  | virtualTable _ | view _ => none

/-- Whether a relation is a view. -/
def isView : Relation → Bool
  | view _ => true
  | table _ | virtualTable _ => false

end Relation

/-- The objects of a database. -/
structure Catalog where
  relations : List Relation
  triggers : List (List UInt8)

namespace Catalog

/-- No objects. -/
def nothing : Catalog := ⟨[], []⟩

/-- The tables. -/
def tables (cat : Catalog) : List Table :=
  cat.relations.filterMap Relation.table?

/-- The name of the table of entries. -/
def schemaName : List UInt8 := Text.Utf8.ofString "sqlite_master"

/-- The relation of a name. The table of entries has a second name. -/
def relation? (cat : Catalog) (name : List UInt8) : Option Relation :=
  let name := if Text.Octet.spells "sqlite_schema" name then schemaName else name
  cat.relations.find? fun r => Text.Octet.same r.name name

/-- The names of the indexes. -/
def indexNames (cat : Catalog) : List (List UInt8) :=
  cat.tables.flatMap fun t => t.indexes.map Index.name

/-- The table that has an index of a name. -/
def indexed? (cat : Catalog) (name : List UInt8) : Option Table :=
  cat.tables.find? fun t => t.indexes.any fun ix => Text.Octet.same ix.name name

/-- Put a changed table in the place of the one with its name. -/
def replace (cat : Catalog) (t : Table) : Catalog :=
  let put (r : Relation) : Relation :=
    match r with
    | .table u => if Text.Octet.same u.name t.name then .table t else r
    | _ => r
  { cat with relations := cat.relations.map put }

/-- Add a relation. -/
def addRelation (cat : Catalog) (r : Relation) : Catalog :=
  { cat with relations := r :: cat.relations }

/-- What is wrong with a name in front of which a database is named. -/
def qualifiedFault : String := "corrupt database"

/-- What is wrong with an object that names a foreign database. -/
def foreignFault (type title : String) (database : List UInt8) : String :=
  let text := Text.Utf8.lossyString database
  s!"{type} {title} cannot reference objects in database {text}"

/-! ## Relations -/

/-- The name that a table or a view gets. What is rooted at the first page is the table of entries, however it is
called. -/
def nameFor (root : Nat) (head : Head) : List UInt8 :=
  if root = 1 then schemaName else head.name

/-- Whether a table or a view is new: if it is there already, it must be said that this is in order. -/
def isNew (cat : Catalog) (r : SchemaEntry) (root : Nat) (type : String) (head : Head) : Except String Bool := do
  let name := nameFor root head
  if head.qualified && root ≠ 1 then throw qualifiedFault
  if !r.agrees type name name then throw ""
  match cat.relation? name with
  | some old =>
    if head.ifAbsent then return false
    let sort := if old.isView then "view" else "table"
    let text := Text.Utf8.lossyString (if root = 1 then head.first else head.lexeme).text
    throw s!"{sort} {text} already exists"
  | none =>
    if (cat.indexed? name).isSome then
      let text := Text.Utf8.lossyString name
      throw s!"there is already an index named {text}"
    return true

/-- Go on behind a head that may be at fault. -/
def behind (c : Cursor) {α : Type} (checked : Except String α) : Cursor :=
  match checked with
  | .ok _ => c
  | .error m => { c with fault := some m }

/-- Add a table whose definition goes on at a cursor. -/
def addTable (cat : Catalog) (img : Image) (r : SchemaEntry) (root : Nat) (head : Head) (c : Cursor) :
    Except Stop Catalog := do
  let checked := cat.isNew r root "table" head
  let draft := match checked with
    | .ok true => some (Draft.start (nameFor root head) root img.isWritable cat.indexNames)
    | _ => none
  match ← (Draft.read draft).run' (behind c checked) with
  | some d => return cat.addRelation (.table d.table)
  | none => return cat

/-- Add a virtual table whose definition goes on at a cursor. -/
def addVirtualTable (cat : Catalog) (r : SchemaEntry) (root : Nat) (head : Head) (c : Cursor) :
    Except Stop Catalog := do
  let checked := cat.isNew r root "table" head
  let ((), _) ← (do Reader.virtualTableArguments; Reader.finished).run (behind c checked)
  match checked with
  | .ok true => return cat.addRelation (.virtualTable (nameFor root head))
  | _ => return cat

/-- Add a view. A view has no pages. -/
def addView (cat : Catalog) (r : SchemaEntry) (root : Nat) (head : Head) (query : QueryTerm) (c : Cursor) :
    Except String Catalog := do
  if c.parameters.count ≠ 0 then throw "parameters are not allowed in views"
  let new ← cat.isNew r root "view" head
  if let some m := c.fault then throw m
  if !new then return cat
  if let some database := query.foreign then throw (foreignFault "view" (Text.Utf8.lossyString head.lexeme.text) database)
  if root ≠ 0 then throw ""
  return cat.addRelation (.view head.name)

/-! ## Indexes -/

/-- The columns of an index. Its condition is looked at first, but a fault of the first term counts more. -/
def indexColumns (t : Table) (terms : List KeyTerm) (condition : Option Term) : Except String (List IndexColumn) := do
  let f := match condition with
    | some c => (t.resolveTerm .condition ⟨none, false⟩ c).1
    | none => ⟨none, false⟩
  terms.mapM (t.indexColumn f)

/-- Add an index. -/
def addIndex (cat : Catalog) (r : SchemaEntry) (root : Nat) (s : IndexStatement) : Except String Catalog := do
  let title := Text.Utf8.lossyString s.table
  let name := Text.Utf8.lossyString s.head.name
  if let some m := Draft.nullsFault? s.terms then throw m
  if s.head.qualified then throw qualifiedFault
  match cat.relation? s.table with
  | none => throw s!"no such table: main.{title}"
  | some (.view _) => throw "views may not be indexed"
  | some (.virtualTable _) => throw "virtual tables may not be indexed"
  | some (.table t) =>
    if !r.agrees "index" s.head.name t.name then throw ""
    if (cat.indexed? s.head.name).isSome then
      if s.head.ifAbsent then return cat else throw s!"index {name} already exists"
    if Draft.maxColumns < s.terms.length then throw "too many columns in index"
    let key ← indexColumns t s.terms s.condition
    if t.indexes.any (·.root = root) then throw "invalid rootpage"
    let ix : Index :=
      { name := s.head.name, origin := .statement, key, columns := key, held := [], conflict := none,
        isPartial := s.condition.isSome, root }
    let ix := if t.withoutRowid then ix.extend ((t.primaryKey?.map Index.key).getD []) else ix
    return cat.replace (t.withIndexes ({ ix with held := ix.columns.filterMap IndexColumn.column } :: t.indexes))

/-! ## Triggers -/

/-- What is wrong with the time at which a trigger acts, given what it waits for. -/
def timeFault? (time : TriggerTime) (rel : Relation) (title : String) : Option String :=
  match rel.isView, time with
  | true, .before => some s!"cannot create BEFORE trigger on view: {title}"
  | true, .after => some s!"cannot create AFTER trigger on view: {title}"
  | false, .instead => some s!"cannot create INSTEAD OF trigger on table: {title}"
  | _, _ => none

/-- Whether a trigger is new: if it is there already, it must be said that this is in order. -/
def isNewTrigger (cat : Catalog) (r : SchemaEntry) (t : TriggerStatement) : Except String Bool := do
  let title := Text.Utf8.lossyString t.table
  if t.head.qualified then throw qualifiedFault
  match cat.relation? t.table with
  | none => throw s!"no such table: main.{title}"
  | some (.virtualTable _) => throw "cannot create triggers on virtual tables"
  | some rel =>
    if !r.agrees "trigger" t.head.name rel.name then throw ""
    if cat.triggers.any (Text.Octet.same t.head.name) then
      if t.head.ifAbsent then return false
      let text := Text.Utf8.lossyString t.head.lexeme.text
      throw s!"trigger {text} already exists"
    if Text.Octet.spells "sqlite_" (rel.name.take 7) then throw "cannot create trigger on system table"
    match timeFault? t.time rel title with
    | some m => throw m
    | none => return true

/-- The steps of a trigger with the end of the statement. -/
def triggerBody (isNew : Bool) : Reader (Option (List UInt8)) := do
  let foreign ← Reader.triggerSteps isNew
  Reader.finished
  return foreign

/-- Add a trigger whose definition goes on at a cursor. -/
def addTrigger (cat : Catalog) (r : SchemaEntry) (t : TriggerStatement) (c : Cursor) (src : Source) :
    Except Complaint Catalog := do
  let checked := cat.isNewTrigger r t
  let new := match checked with
    | .ok new => new
    | .error _ => false
  let foreign ← ((triggerBody new).run' (behind c checked)).mapError src.complaint
  if !new then return cat
  if let some database := foreign.or t.foreign then
    throw (.detail (foreignFault "trigger" (Text.Utf8.lossyString t.head.name) database))
  return { cat with triggers := t.head.name :: cat.triggers }

/-! ## Entries -/

/-- Add an object that is made by a statement. -/
def addStatement (cat : Catalog) (img : Image) (r : SchemaEntry) (root : Nat) (sql : List UInt8) :
    Except Complaint Catalog := do
  let src := Source.ofText sql
  let (s, c) ← (Reader.statement.run (.start src.lexemes)).mapError src.complaint
  match s with
  | .table head => (cat.addTable img r root head c).mapError src.complaint
  | .virtualTable head => (cat.addVirtualTable r root head c).mapError src.complaint
  | .trigger t => cat.addTrigger r t c src
  | .index s =>
    let _ ← (Reader.finished.run c).mapError src.complaint
    (cat.addIndex r root s).mapError .detail
  | .view head query =>
    let _ ← (Reader.finished.run { c with fault := none }).mapError src.complaint
    (cat.addView r root head query c).mapError .detail

/-- Root an index that has no statement of its own. -/
def rootIndex (cat : Catalog) (pageCount : Nat) (root name : List UInt8) : Except String Catalog :=
  match cat.indexed? name with
  | none => .error "orphan index"
  | some t =>
    match SchemaEntry.pageNumber? root with
    | none => .error "invalid rootpage"
    | some n =>
      let taken := t.indexes.any fun ix => ix.root = n && !Text.Octet.same ix.name name
      if n < 2 || pageCount < n || taken then .error "invalid rootpage"
      else
        .ok (cat.replace
          { t with indexes := t.indexes.map fun ix => if Text.Octet.same ix.name name then { ix with root := n } else ix })

/-- The catalog behind an entry, and what is wrong with the entry if anything is. An object at a page that is not there
is added all the same. -/
def add (cat : Catalog) (img : Image) (r : SchemaEntry) : Catalog × Option Complaint :=
  match r.root with
  | none => (cat, some (.detail ""))
  | some root =>
    let sql := r.sql.getD []
    if SchemaEntry.hasStatement sql then
      let n := SchemaEntry.pageNumber? root
      let fault := if n.any (· ≤ img.pageCount) then none else some (.detail "invalid rootpage")
      match cat.addStatement img r (n.getD 0) sql with
      | .ok cat => (cat, fault)
      | .error .nameTaken => (cat, some .nameTaken)
      | .error (.detail m) => (cat, fault.or (some (.detail m)))
    else match r.name, sql.isEmpty with
      | some name, true => match cat.rootIndex img.pageCount root name with
        | .ok cat => (cat, none)
        | .error m => (cat, some (.detail m))
      | _, _ => (cat, some (.detail ""))

/-- The entry of the table of entries itself. -/
def schemaEntry : SchemaEntry where
  type := some (Text.Utf8.ofString "table")
  name := some schemaName
  table := some schemaName
  root := some [0x31]
  sql := some (Text.Utf8.ofString "CREATE TABLE x(type text,name text,tbl_name text,rootpage int,sql text)")

/-- The objects that were added so far, and the first entry that is at fault, with what is wrong with it. -/
structure Sum where
  catalog : Catalog
  spoiled : Option (SchemaEntry × String)

/-- The catalog of a database without objects. -/
def Sum.initial (img : Image) : Sum :=
  ⟨(nothing.add img schemaEntry).1, none⟩

/-- Add the object of a cell. Behind an entry that is at fault, entries must still be readable. -/
def Sum.addCell (img : Image) (sum : Sum) (c : Cell) : Except Error Sum :=
  match (SchemaEntry.ofCell img c).run' #[], sum.spoiled with
  | .error e, none => .error e
  | .error e, some (r, detail) => .error (.malformedSchema r.title detail (e = .tooBig))
  | .ok r, spoiled =>
    match sum.catalog.add img r with
    | (_, some .nameTaken) => .error .outOfMemory
    | (cat, some (.detail m)) => .ok ⟨cat, spoiled.or (some (r, m))⟩
    | (cat, none) => .ok ⟨cat, spoiled⟩

/-- The catalog of a database. A fault of an entry counts more than a walk that ends early behind it. -/
def ofImage (img : Image) : Except Error Catalog :=
  if Header.newestSchemaFormat < img.schemaFormat then .error .unsupportedFormat
  else do
    let (cells, e) := Walk.schema img
    let sum ← cells.foldlM (Sum.addCell img) (.initial img)
    match sum.spoiled, e with
    | some (r, detail), _ => .error (.malformedSchema r.title detail false)
    | none, some e => .error e
    | none, none => .ok sum.catalog

end Catalog
end FirstRow.Store
