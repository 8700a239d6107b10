import FirstRow.Store.Catalog

/-!
# Scans

A table is read in one of several ways: through its own tree, or, where rows have no number, through any index that
holds all columns. `Scan.ofTable` chooses the cheapest, and says where in a record every column stands.
-/
namespace FirstRow.Store

open FirstRow.Sql

/-- Where the value of a column comes from. -/
inductive Source where
  | rowid
  /-- A field of the record. -/
  | field (position : Nat)
  /-- The column is not stored. -/
  | computed
deriving DecidableEq

/-- A way to read a table. -/
structure Scan where
  kind : TreeKind
  root : Nat
  /-- Where the value of every column comes from, in declared order. -/
  sources : List Source

namespace Scan

/-- Ten times the logarithm to base two, rounded on a scale of eighths. -/
def logEstimate (n : Nat) : Nat :=
  if n < 2 then 0
  else
    let k := n.log2
    10 * k + [0, 2, 3, 5, 6, 7, 8, 9].getD ((8 * n) >>> k % 8) 0

/-- How wide the rows of a table are taken to be. -/
def tableWidth (t : Table) : Nat :=
  t.columns.foldl (fun n c => n + c.type.width) 0 + if t.rowidColumn.isSome then 0 else 1

/-- How wide the entries of an index are taken to be. -/
def indexWidth (t : Table) (ix : Index) : Nat :=
  ix.columns.foldl (fun n c => n + ((c.column.bind (t.columns[·]?)).map fun c => c.type.width).getD 1) 0

/-- What it costs to read a table through an index, apart from what is the same for all indexes. -/
def cost (t : Table) (ix : Index) : Nat :=
  15 * logEstimate (4 * indexWidth t ix) / logEstimate (4 * tableWidth t)

/-- The collations that are known. -/
def knownCollations : List String := ["binary", "nocase", "rtrim"]

/-- Whether rows can be read from an index alone. -/
def isUsable (t : Table) (ix : Index) : Bool :=
  !ix.isPartial && (List.range t.columns.length).all (ix.held.contains ·) &&
    ix.columns.all fun c => knownCollations.any (Text.Octet.spells · c.collation)

/-- The cheapest of several indexes, of equal ones the first. -/
def cheapest (t : Table) : List Index → Option Index
  | [] => none
  | ix :: rest => match cheapest t rest with
    | some other => if cost t ix ≤ cost t other then some ix else some other
    | none => some ix

/-- Where columns are in a table with row numbers: stored ones have the fields of the record in turn, from `position`
on, and `number` is the number of the first of the columns. The field of the column that stands for the row number is
there, but does not count. -/
def rowidSources (rowidColumn : Option Nat) : Nat → Nat → List Column → List Source
  | _, _, [] => []
  | number, position, c :: rest =>
    if !c.isStored then .computed :: rowidSources rowidColumn (number + 1) position rest
    else
      (if rowidColumn = some number then .rowid else .field position) ::
        rowidSources rowidColumn (number + 1) (position + 1) rest

/-- Where the columns of a table are in an index. -/
def indexSources (t : Table) (ix : Index) : List Source :=
  (List.range t.columns.length).map fun i =>
    match ix.columns.findIdx? (·.column = some i) with
    | some p => .field p
    | none => .computed

/-- The way in which a table is read. -/
def ofTable (t : Table) : Except Error Scan :=
  if t.withoutRowid then
    match cheapest t (t.indexes.filter (isUsable t)) with
    | some ix => .ok ⟨.index, ix.root, indexSources t ix⟩
    | none => .error .noQuerySolution
  else .ok ⟨.table, t.root, rowidSources t.rowidColumn 0 0 t.columns⟩

/-- The number of fields that are looked at in a record. -/
def fieldCount (s : Scan) : Nat :=
  (s.sources.map fun
    | .field p => p + 1
    | _ => 0).foldl max 0

/-- The value of a column in a row. A field that the record lacks takes the default of the column. -/
def value (img : Image) (s : Scan) (c : Cell) (layout : Record.Layout) (column : Column) : Source → ChainReader Datum
  | .rowid => return .integer c.rowid
  | .computed => return .null
  | .field p => do
    match ← layout.field? p with
    | some f => return column.type.affinity.onRead (← Record.value img s.kind c f)
    | none => return column.type.affinity.onRead (column.missing img.encoding)

/-- The values of a row in declared order. -/
def row (img : Image) (t : Table) (s : Scan) (c : Cell) : ChainReader (List Datum) := do
  let layout ← Record.layout img c s.fieldCount
  (t.columns.zip s.sources).mapM fun (column, source) => s.value img c layout column source

/-- The first row of a table, if it has rows. -/
def firstRow? (img : Image) (t : Table) : Except Error (Option (List Datum)) := do
  let s ← ofTable t
  match ← Walk.first? img s.kind s.root with
  | none => .ok none
  | some c => some <$> (s.row img t c).run' #[]

end Scan
end FirstRow.Store
