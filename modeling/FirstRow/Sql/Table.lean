import FirstRow.Sql.Clause
import FirstRow.Sql.Default

/-!
# Tables

A table as its definition declares it: columns in order, the column that stands for the row number if there is one,
and the indexes that come with it. `Table.storageOrder` says in which order the columns of a row are stored.
-/
namespace FirstRow.Sql

/-- Where the values of a computed column are. -/
inductive Generation where
  | stored
  /-- Nowhere: they are computed on reading. -/
  | computed
deriving DecidableEq

/-- A column. -/
structure Column where
  name : List UInt8
  type : ColumnType
  collation : Option (List UInt8)
  /-- The default, or the expression of a computed column. -/
  value : Option Expr
  generation : Option Generation
  /-- The column is part of the primary key. -/
  inKey : Bool
  /-- Values are never null. -/
  notNull : Bool

namespace Column

/-- Whether a column is part of stored rows. -/
def isStored (c : Column) : Bool :=
  c.generation ≠ some .computed

/-- The collation that orders the values of a column. -/
def order (c : Column) : List UInt8 :=
  c.collation.getD (Text.Utf8.ofString "BINARY")

/-- The value of a column that a record lacks. -/
def missing (enc : Store.Encoding) (c : Column) : Store.Datum :=
  match c.value with
  | some e => defaultValue enc c.type.affinity e
  | none => .null

end Column

/-- A column in an index, or an expression, which is no column. -/
structure IndexColumn where
  column : Option Nat
  collation : List UInt8
deriving DecidableEq

namespace IndexColumn

/-- The same column in the same order. -/
def same (a b : IndexColumn) : Bool :=
  a.column = b.column && Text.Octet.same a.collation b.collation

end IndexColumn

/-- Where an index comes from. -/
inductive IndexOrigin where
  | statement
  | unique
  | primaryKey
deriving DecidableEq

/-- An index. -/
structure Index where
  name : List UInt8
  origin : IndexOrigin
  /-- The columns that order the index. -/
  key : List IndexColumn
  /-- All columns that are stored in the index. -/
  columns : List IndexColumn
  /-- The columns that the index is known to hold when it is asked for whole rows. -/
  held : List Nat
  conflict : Option Conflict
  /-- Only some rows are in the index. -/
  isPartial : Bool
  root : Nat

/-- Add to an index the columns of the primary key that it lacks. -/
def Index.extend (ix : Index) (key : List IndexColumn) : Index :=
  { ix with columns := ix.key ++ key.filter fun c => !ix.key.any (·.same c) }

/-- A table. -/
structure Table where
  name : List UInt8
  root : Nat
  columns : List Column
  /-- The column that stands for the row number. -/
  rowidColumn : Option Nat
  /-- Rows have no number and are stored in the order of the primary key. -/
  withoutRowid : Bool
  /-- The newest index comes first, but those that replace rows on conflict come last. -/
  indexes : List Index

namespace Table

/-- Whether a name is that of the table. The table of entries has two names. -/
def isNamed (t : Table) (name : List UInt8) : Bool :=
  Text.Octet.same t.name name || (t.root = 1 && Text.Octet.spells "sqlite_schema" name)

/-- The column of a name. -/
def column? (t : Table) (name : List UInt8) : Option Nat :=
  t.columns.findIdx? fun c => Text.Octet.same c.name name

/-- Whether a column, or the number of the row, can be null. -/
def isNullable (t : Table) : Option Nat → Bool
  | none => false
  | some i => t.rowidColumn ≠ some i && !(t.columns[i]?.any Column.notNull)

/-- Change the indexes; those that replace rows on conflict stay behind the others. -/
def withIndexes (t : Table) (ixs : List Index) : Table :=
  let (late, early) := ixs.partition (·.conflict = some .replace)
  { t with indexes := early ++ late }

/-- The index that holds the primary key. -/
def primaryKey? (t : Table) : Option Index :=
  t.indexes.find? (·.origin = .primaryKey)

end Table

namespace Key

/-- The columns of a key without those that come a second time in the same order. -/
def distinct (key : List IndexColumn) : List IndexColumn :=
  key.foldl (fun seen c => if seen.any (·.same c) then seen else seen ++ [c]) []

/-- The columns of a table that a list of columns lacks and that are stored, in declared order. -/
def others (columns : List Column) (key : List IndexColumn) : List IndexColumn :=
  ((List.range columns.length).filter fun i =>
    (columns[i]?.map Column.isStored).getD false && !key.any (·.column = some i)).map fun i =>
      ⟨some i, Text.Utf8.ofString "BINARY"⟩

/-- The order in which rows are stored that have no number: the columns of the key, then the others in declared
order. -/
def storageOrder (columns : List Column) (key : List IndexColumn) : List IndexColumn :=
  key ++ others columns key

end Key
end FirstRow.Sql
