import FirstRow.Failure
import FirstRow.Payload
import FirstRow.Store.Opening
import FirstRow.Store.Scan

/-!
# Fetching the first row

The row that is served is the first one of the table `test`. Its first two columns are turned into JSON, the first one
first; what fails first is what counts.
-/
namespace FirstRow

open FirstRow.Store (Datum Image)

/-- The name of the table that is served. -/
def tableName : String := "test"

namespace Fetch

/-- The JSON form of a column's value. Blobs and infinite reals have none. -/
def json (column : Nat) : Datum → Except Failure Json
  | .null => .ok .null
  | .integer n => .ok (.integer n)
  | .real x =>
    if x.isNaN then .ok .null
    else if h : x.isFinite = true then .ok (.real ⟨x, h⟩)
    else .error (.unsupportedValue column "REAL")
  | .text bs =>
    match Text.Utf8.decode bs with
    | .ok s => .ok (.string (String.ofList s))
    | .error fault => .error (.database (.columnNotText column fault))
  | .blob _ => .error (.unsupportedValue column "BLOB")

/-- The column of a number. -/
def column (ds : List Datum) (i : Nat) : Except Failure Datum :=
  match ds[i]? with
  | some d => .ok d
  | none => .error (.database (.columnIndexOutOfBounds i ds.length))

/-- What is served of a row. -/
def row (ds : List Datum) : Except Failure Row := do
  let id ← column ds 0 >>= json 0
  let data ← column ds 1 >>= json 1
  .ok ⟨id, data⟩

/-- The values in the first row of the table that is served. -/
def values? (img : Image) : Except Store.Error (Option (List Datum)) := do
  let cat ← Store.Catalog.ofImage img
  match (cat.relation? (Text.Utf8.ofString tableName)).bind Store.Relation.table? with
  | none => .error (.noSuchTable tableName)
  | some t => Store.Scan.firstRow? img t

/-- The first row of a store. -/
def ofImage (img : Image) : Except Failure (Option Row) :=
  match values? img with
  | .error e => .error (.database (.store e))
  | .ok none => .ok none
  | .ok (some ds) => some <$> row ds

end Fetch

/-- The first row of the store at a path. -/
def fetch (d : Disk) (workingDirectory : AbsolutePath) (path : String) : Except Failure (Option Row) :=
  if path.toList.contains '\x00' then .error (.database .pathWithNul)
  else match Store.openImage d workingDirectory (Text.Utf8.ofString path) with
    | .error e => .error (.database (.store e))
    | .ok img => Fetch.ofImage img

/-- The disk after the first row of the store at a path was fetched. -/
def afterFetch (d : Disk) (workingDirectory : AbsolutePath) (path : String) : Disk :=
  if path.toList.contains '\x00' then d else Store.afterOpening d workingDirectory (Text.Utf8.ofString path)

end FirstRow
