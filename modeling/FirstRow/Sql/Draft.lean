import FirstRow.Sql.Resolution

/-!
# Building tables

The clauses of a definition are applied one after the other to a draft of the table, each as soon as it is read. A
clause that makes no sense where it stands is a fault, which stops the reader in front of the next lexeme unless that
one cannot stand there at all. Of several faults in front of the same lexeme the last one counts.
-/
namespace FirstRow.Sql

/-- A table that is being built. -/
structure Draft where
  table : Table
  /-- A primary key was declared. -/
  hasKey : Bool
  /-- Row numbers are never used again. -/
  counts : Bool
  keyConflict : Option Conflict
  strict : Bool
  /-- Checks are looked at: rows may be written. -/
  keepsChecks : Bool
  checks : List Term
  /-- The computed columns by their numbers, with their expressions. -/
  computed : List (Nat × Term)
  /-- The names that the indexes of other tables have. -/
  taken : List (List UInt8)
  /-- One of the indexes has such a name. -/
  clashes : Bool

namespace Draft

/-- The draft after a clause, and what is wrong with the clause if anything is. -/
abbrev Step := Draft × Option String

/-- The greatest number of columns in a table or in a key. -/
def maxColumns : Nat := 2000

/-- The draft of a table without columns. -/
def start (name : List UInt8) (root : Nat) (keepsChecks : Bool) (taken : List (List UInt8)) : Draft where
  table := ⟨name, root, [], none, false, []⟩
  hasKey := false
  counts := false
  keyConflict := none
  strict := false
  keepsChecks
  checks := []
  computed := []
  taken
  clashes := false

/-- The name of the table as text. -/
def title (d : Draft) : String :=
  Text.Utf8.lossyString d.table.name

/-- The number of the last column. -/
def last (d : Draft) : Nat :=
  d.table.columns.length - 1

/-- The name of the last column as text. -/
def lastTitle (d : Draft) : String :=
  match d.table.columns.getLast? with
  | some c => Text.Utf8.lossyString c.name
  | none => ""

/-- Change a column. -/
def modifyColumn (d : Draft) (i : Nat) (f : Column → Column) : Draft :=
  { d with table := { d.table with columns := d.table.columns.modify i f } }

/-- Change the indexes. -/
def withIndexes (d : Draft) (ixs : List Index) : Draft :=
  { d with table := d.table.withIndexes ixs }

/-- Add a column. -/
def addColumn (d : Draft) (name type : List UInt8) : Step :=
  let title := d.title
  if maxColumns ≤ d.table.columns.length then (d, some s!"too many columns on {title}")
  else if (d.table.column? name).isSome then
    let text := Text.Utf8.lossyString name
    (d, some s!"duplicate column name: {text}")
  else
    let c : Column := ⟨name, .ofText type, none, none, none, false, false⟩
    ({ d with table := { d.table with columns := d.table.columns ++ [c] } }, none)

/-- What is wrong with terms that say where nulls go. -/
def nullsFault? (terms : List KeyTerm) : Option String :=
  (terms.findSome? KeyTerm.nullsFirst).map fun first =>
    if first then "unsupported use of NULLS FIRST" else "unsupported use of NULLS LAST"

/-- The column of a term in a key of the table. -/
def keyColumn (t : Table) (term : KeyTerm) : Except String IndexColumn := do
  let c ← t.indexColumn ⟨none, false⟩ term
  if c.column.isNone then throw "expressions prohibited in PRIMARY KEY and UNIQUE constraints"
  return c

/-- Whether two keys have the same columns in the same order. -/
def sameKey (a b : List IndexColumn) : Bool :=
  a.length = b.length && (a.zip b).all fun (x, y) => x.same y

/-- Make an existing index serve another constraint with the same key. -/
def mergeIndex (d : Draft) (ix : Index) (conflict : Option Conflict) (origin : IndexOrigin) : Step :=
  let fault :=
    if ix.conflict ≠ conflict && ix.conflict.isSome && conflict.isSome then
      some "conflicting ON CONFLICT clauses specified"
    else none
  let merged : Index :=
    { ix with
      conflict := ix.conflict.or conflict
      origin := if origin = .primaryKey then origin else ix.origin }
  (d.withIndexes (d.table.indexes.map fun other => if other.name = ix.name then merged else other), fault)

/-- Add the index of a constraint, unless one with the same key is there. -/
def addIndex (d : Draft) (key : List IndexColumn) (conflict : Option Conflict) (origin : IndexOrigin) : Step :=
  match d.table.indexes.find? fun ix => sameKey ix.key key with
  | some ix => d.mergeIndex ix conflict origin
  | none =>
    let number := Text.Utf8.encode (Decimal.digits (d.table.indexes.length + 1))
    let ix : Index :=
      { name := Text.Utf8.ofString "sqlite_autoindex_" ++ d.table.name ++ 0x5F :: number
        origin
        key
        columns := key
        held := key.filterMap IndexColumn.column
        conflict
        isPartial := false
        root := 0 }
    let clashes := d.clashes || d.taken.any (Text.Octet.same ix.name)
    ({ d with clashes }.withIndexes (ix :: d.table.indexes), none)

/-- Add the index of a constraint on terms. -/
def addKey (d : Draft) (terms : List KeyTerm) (conflict : Option Conflict) (origin : IndexOrigin) : Step :=
  match nullsFault? terms with
  | some m => (d, some m)
  | none =>
    if maxColumns < terms.length then (d, some "too many columns in index")
    else match terms.mapM (keyColumn d.table) with
      | .error m => (d, some m)
      | .ok key => d.addIndex key conflict origin

/-- The key on a column alone. -/
def columnKey (d : Draft) (i : Nat) : List IndexColumn :=
  [⟨some i, (d.table.columns[i]?.map Column.order).getD []⟩]

/-- Make a column part of the primary key. -/
def markKey (d : Draft) (i : Nat) : Step :=
  let fault := match d.table.columns[i]?.bind Column.generation with
    | some _ => some "generated columns cannot be part of the PRIMARY KEY"
    | none => none
  (d.modifyColumn i fun c => { c with inKey := true }, fault)

/-- Whether the primary key on a column alone is the number of the row. -/
def isRowid (d : Draft) (i : Nat) : Bool :=
  (d.table.columns[i]?.map fun c => decide (c.type.standard = some .integer)).getD false

/-- What is wrong with a second primary key. -/
def secondKey (d : Draft) : String :=
  let title := d.title
  s!"table \"{title}\" has more than one primary key"

/-- What is wrong with counting where there is nothing to count. -/
def cannotCount : String :=
  "AUTOINCREMENT is only allowed on an INTEGER PRIMARY KEY"

/-- The primary key that is declared on the last column. Written with `DESC` there it is not the row number. -/
def columnPrimaryKey (d : Draft) (descending : Bool) (conflict : Option Conflict) (counts : Bool) : Step :=
  if d.hasKey then (d, some d.secondKey)
  else
    let (d, fault) := { d with hasKey := true }.markKey d.last
    if d.isRowid d.last && !descending then
      ({ d with table := { d.table with rowidColumn := some d.last }, keyConflict := conflict, counts }, fault)
    else if counts then (d, some cannotCount)
    else match fault with
      | some m => (d, some m)
      | none => d.addIndex (d.columnKey d.last) conflict .primaryKey

/-- The columns that the terms of a primary key name. -/
def namedColumns (t : Table) (terms : List KeyTerm) : List Nat :=
  terms.filterMap fun k =>
    match k.term.expr.deepAsName.withoutCollation with
    | .name n => t.column? n.text
    | _ => none

/-- Mark several columns as parts of the primary key. -/
def markKeys (d : Draft) (columns : List Nat) : Step :=
  columns.foldl (fun (d, fault) i =>
    let (d, m) := d.markKey i
    (d, m.or fault)) (d, none)

/-- The primary key that is declared on the table. -/
def tablePrimaryKey (d : Draft) (terms : List KeyTerm) (conflict : Option Conflict) (counts : Bool) : Step :=
  if d.hasKey then (d, some d.secondKey)
  else
    let columns := namedColumns d.table terms
    let (d, fault) := { d with hasKey := true }.markKeys columns
    let single := match terms, columns with
      | [_], [i] => if d.isRowid i then some i else none
      | _, _ => none
    match single with
    | some i =>
      ({ d with table := { d.table with rowidColumn := some i }, keyConflict := conflict, counts },
        (nullsFault? terms).or fault)
    | none =>
      if counts then (d, some cannotCount)
      else match fault with
        | some m => (d, some m)
        | none => d.addKey (terms.map fun k => k.map Expr.deepAsName) conflict .primaryKey

/-- Give the last column a default. -/
def setDefault (d : Draft) (e : Expr) : Step :=
  let title := d.lastTitle
  if !e.isConstant true then (d, some s!"default value of column [{title}] is not constant")
  else if ((d.table.columns.getLast?.bind Column.generation).isSome) then
    (d, some "cannot use DEFAULT on a generated column")
  else (d.modifyColumn d.last fun c => { c with value := some e }, none)

/-- Where the values of a computed column are, by the word behind its expression. -/
def generationOf? : Option (List UInt8) → Option Generation
  | none => some .computed
  | some w =>
    if Text.Octet.spells "virtual" w then some .computed
    else if Text.Octet.spells "stored" w then some .stored
    else none

/-- The expression of a computed column. A name alone counts as an expression that was made of it. -/
def computing (t : Term) : Term :=
  match t.expr with
  | .name _ => { t with expr := .positive t.expr, height := t.height + 1 }
  | _ => t

/-- Make the last column a computed one. -/
def setGenerated (d : Draft) (t : Term) (storage : Option (List UInt8)) : Step :=
  let title := d.lastTitle
  let hasValue := (d.table.columns.getLast?.bind Column.value).isSome
  match generationOf? storage with
  | some g =>
    if hasValue then (d, some s!"error in generated column \"{title}\"")
    else
      let inKey := (d.table.columns.getLast?.map Column.inKey).getD false
      let t := computing t
      ({ d with computed := d.computed ++ [(d.last, t)] }.modifyColumn d.last fun c =>
          { c with value := some t.expr, generation := some g },
        if inKey then some "generated columns cannot be part of the PRIMARY KEY" else none)
  | none => (d, some s!"error in generated column \"{title}\"")

/-- Give the last column a collation, and the indexes on it too. -/
def setCollation (d : Draft) (collation : List UInt8) : Draft :=
  let i := d.last
  let d := d.modifyColumn i fun c => { c with collation := some collation }
  let respell (key : List IndexColumn) : List IndexColumn :=
    match key with
    | c :: rest => if c.column = some i then ⟨c.column, collation⟩ :: rest else key
    | [] => []
  d.withIndexes (d.table.indexes.map fun ix => { ix with key := respell ix.key, columns := respell ix.columns })

/-- Check a reference from the last column. -/
def reference (d : Draft) (table : List UInt8) (columns : Option Nat) : Step :=
  let title := d.lastTitle
  let text := Text.Utf8.lossyString table
  match columns with
  | some 1 | none => (d, none)
  | some _ => (d, some s!"foreign key on {title} should reference only one column of table {text}")

/-- Check a reference from several columns. -/
def foreignKey (d : Draft) (own : List (List UInt8)) (columns : Option Nat) : Step :=
  if columns.isSome && columns ≠ some own.length then
    (d, some "number of columns in foreign key does not match the number of columns in the referenced table")
  else match own.find? fun n => (d.table.column? n).isNone with
    | some n =>
      let text := Text.Utf8.lossyString n
      (d, some s!"unknown column \"{text}\" in foreign key definition")
    | none => (d, none)

/-- What is wrong with a column of a table that insists on types. -/
def strictFault? (t : Table) (c : Column) : Option String :=
  if c.type.standard.isSome then none
  else
    let table := Text.Utf8.lossyString t.name
    let column := Text.Utf8.lossyString c.name
    let type := Text.Utf8.lossyString c.type.text
    if c.type.text.isEmpty then some s!"missing datatype for {table}.{column}"
    else some s!"unknown datatype for {table}.{column}: \"{type}\""

/-- In a table that insists on types, columns for anything leave values as they are, and what is in the primary key is
not null. -/
def strictColumn (rowidColumn : Option Nat) (i : Nat) (c : Column) : Column :=
  { c with
    type := if c.type.standard = some .any then { c.type with affinity := .blob } else c.type
    notNull := c.notNull || (c.inKey && rowidColumn ≠ some i) }

/-- Make the table insist on types. -/
def insistOnTypes (d : Draft) : Step :=
  match d.table.columns.findSome? (strictFault? d.table) with
  | some m => (d, some m)
  | none =>
    ({ d with table := { d.table with columns := d.table.columns.mapIdx (strictColumn d.table.rowidColumn) } }, none)

/-- Turn a table into one without row numbers: the index of the primary key holds the rows. Behind a fault that is
pending no index is made. -/
def dropRowids (d : Draft) (pending : Option String) : Step :=
  let columns := d.table.columns.map fun c => { c with notNull := c.notNull || c.inKey }
  let rowidColumn := d.table.rowidColumn
  let d := { d with table := { d.table with columns, rowidColumn := none } }
  let (d, fault) := match rowidColumn, pending with
    | some i, none => d.addIndex (d.columnKey i) d.keyConflict .primaryKey
    | _, _ => (d, pending)
  let key := match d.table.primaryKey? with
    | some pk => Key.distinct pk.key
    | none => []
  let finish (ix : Index) : Index :=
    if ix.origin = .primaryKey then
      { ix with
        key
        columns := Key.storageOrder d.table.columns key
        held := List.range d.table.columns.length
        root := d.table.root }
    else ix.extend key
  ({ d with table := { d.table with indexes := d.table.indexes.map finish } }, fault)

/-- Look up the names in the computed columns. -/
def resolveComputed (d : Draft) (f : Findings) : Draft × Findings :=
  d.computed.foldl (fun (d, f) (i, t) =>
    let (f, e) := d.table.resolveTerm .generated f t
    (d.modifyColumn i fun c => { c with value := some e }, f)) (d, f)

/-- The last step, where a fault may be pending. -/
def finish (d : Draft) (pending : Option String) : Step :=
  let title := d.title
  let (d, fault) := if d.strict then d.insistOnTypes else (d, none)
  if fault.isSome then (d, fault)
  else if d.table.withoutRowid && d.counts then (d, some "AUTOINCREMENT not allowed on WITHOUT ROWID tables")
  else if d.table.withoutRowid && !d.hasKey then (d, some s!"PRIMARY KEY missing on table {title}")
  else
    let (d, fault) := if d.table.withoutRowid then d.dropRowids pending else (d, pending)
    let (d, f) := d.resolveComputed (d.table.resolveTerms .check ⟨fault, false⟩ d.checks)
    if d.table.columns.all fun c => c.generation.isSome then (d, some "must have at least one non-generated column")
    else (d, f.fault)

/-- What is wrong with an option that nobody knows. -/
def optionFault (text : List UInt8) : String :=
  let text := Text.Utf8.lossyString text
  s!"unknown table option: {text}"

/-- The draft after a clause, in front of which a fault may be pending. -/
def apply (d : Draft) (pending : Option String) : Clause → Step
  | .inert => (d, none)
  | .column name type => d.addColumn name type
  | .notNull => (d.modifyColumn d.last fun c => { c with notNull := true }, none)
  | .default t => d.setDefault t.expr
  | .primaryKey descending conflict counts => d.columnPrimaryKey descending conflict counts
  | .unique conflict => d.addIndex (d.columnKey d.last) conflict .unique
  | .check t => (if d.keepsChecks then { d with checks := d.checks ++ [t] } else d, none)
  | .collate collation => (d.setCollation collation, none)
  | .generated t storage => d.setGenerated t storage
  | .references table columns => d.reference table columns
  | .tablePrimaryKey terms conflict counts => d.tablePrimaryKey terms conflict counts
  | .tableUnique terms conflict => d.addKey terms conflict .unique
  | .foreignKey own columns => d.foreignKey own columns
  | .withoutRowid => ({ d with table := { d.table with withoutRowid := true } }, none)
  | .strict => ({ d with strict := true }, none)
  | .unknownOption text => (d, some (optionFault text))
  | .finish => d.finish pending
  | .finishQuery => (d, some "")

/-- What is wrong with a clause where no table is made of it. -/
def idleFault : Clause → Option String
  | .tableUnique terms _ => nullsFault? terms
  | .unknownOption text => some (optionFault text)
  | _ => none

/-- The draft after a clause that was just read; where the table is there already, there is none. -/
def applied (d? : Option Draft) (c : Clause) : Reader (Option Draft) := do
  let pending := (← get).fault
  match d? with
  | none =>
    Reader.raiseIf (idleFault c)
    return none
  | some d =>
    let (d, fault) := d.apply pending c
    if d.clashes then Reader.stop .nameTaken
    Reader.raiseIf fault
    return some d

/-- Read clauses and apply them; at least every third step takes a lexeme, which bounds their number. -/
def readFrom (inner : Nested) : Nat → Clause.Expecting → Option Draft → Reader (Option Draft)
  | 0, _, _ => Reader.stop .grammar
  | _, .nothing, d? => return d?
  | fuel + 1, expecting, d? => do
    let (clause?, expecting) ← Clause.step inner expecting
    modify ({ · with height := expecting.height })
    match clause? with
    | none => readFrom inner fuel expecting d?
    | some c => readFrom inner fuel expecting (← applied d? c)

/-- Read the definition of a table behind its head, with the end of the statement. -/
def read (d? : Option Draft) : Reader (Option Draft) := do
  modify ({ · with height := Clause.Expecting.body.height })
  readFrom nested (4 * (← get).size + 8) .body d?

end Draft
end FirstRow.Sql
