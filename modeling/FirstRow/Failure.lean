import FirstRow.Store.Error
import FirstRow.Text.Utf8

/-!
# Why no row could be served

The three kinds of failure (nothing configured, the database, a value without a JSON form), their wording and the
form in which the log shows them.
-/
namespace FirstRow

/-- What went wrong with the database. -/
inductive DatabaseError where
  /-- The store could not be opened or read. -/
  | store (cause : Store.Error)
  /-- The path holds a NUL, which no file name can. -/
  | pathWithNul
  /-- A column that the row does not have. -/
  | columnIndexOutOfBounds (index length : Nat)
  /-- The text of a column is not UTF-8. -/
  | columnNotText (index : Nat) (fault : Text.Utf8.Fault)
  /-- A column of that name does not exist. -/
  | columnNotFound (name : String)
  /-- A row was required, and there is none. -/
  | rowNotFound
  /-- The thread that talks to the database is gone. -/
  | workerCrashed
  /-- The database sent something unexpected. -/
  | unexpectedData (text : String)
deriving DecidableEq

/-- The wording of a database error. -/
def DatabaseError.message : DatabaseError → String
  | .store cause =>
    let code := cause.code
    let text := cause.message
    s!"error returned from database: (code: {code}) {text}"
  | .pathWithNul => "error communicating with database: filename passed to SQLite must not contain nul bytes"
  | .columnIndexOutOfBounds index length =>
    s!"column index out of bounds: the len is {length}, but the index is {index}"
  | .columnNotText index fault =>
    let text := fault.message
    s!"error occurred while decoding column {index}: {text}"
  | .columnNotFound name => s!"no column found for name: {name}"
  | .rowNotFound => "no rows returned by a query that expected to return at least one row"
  | .workerCrashed => "attempted to communicate with a crashed background worker"
  | .unexpectedData text => s!"encountered unexpected or invalid data: {text}"

/-- Why no row could be served. -/
inductive Failure where
  /-- No store is configured. -/
  | missingDatabaseUrl
  /-- The store could not be read. -/
  | database (e : DatabaseError)
  /-- A column holds a value without a JSON form. -/
  | unsupportedValue (column : Nat) (typeName : String)
deriving DecidableEq

namespace Failure

/-- The wording of a failure. -/
def message : Failure → String
  | .missingDatabaseUrl => "Environment variable 'FASTN_DB_URL' is not set"
  | .database e =>
    let text := e.message
    s!"Database error: {text}"
  | .unsupportedValue column typeName =>
    s!"Column {column} holds a {typeName} value with no JSON representation"

/-- The kind of a failure, in front of its wording. -/
def logText (f : Failure) : String :=
  let text := f.message
  match f with
  | .missingDatabaseUrl => s!"Configuration error: {text}"
  | .database _ => text
  | .unsupportedValue _ _ => s!"Encoding error: {text}"

end Failure
end FirstRow
