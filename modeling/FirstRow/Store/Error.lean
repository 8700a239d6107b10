import FirstRow.Decimal.Digits

/-!
# Why a store cannot be read

Every way in which opening or reading a store fails, each with its number and its wording.
-/
namespace FirstRow.Store

/-- The cause for which a store could not be read. -/
inductive Error where
  /-- There is nothing to open at the path, or the path cannot be used. -/
  | cannotOpen
  /-- The path leads to something whose content cannot be read, such as a directory. -/
  | unreadable
  /-- The header is not that of a database. -/
  | notADatabase
  /-- The file breaks the format in a place that was needed. -/
  | malformed
  /-- The schema entry of the given name cannot be used; the detail may be empty. The number is that of the failure
  which was met last: behind such an entry there may be one that is `tooBig`. -/
  | malformedSchema (name detail : String) (tooBig : Bool)
  /-- The schema format is newer than the newest one known. -/
  | unsupportedFormat
  /-- A value is longer than the longest one allowed. -/
  | tooBig
  /-- Two indexes of the schema come by the same name, which leaves no room for either. -/
  | outOfMemory
  /-- The schema has no table of the given name. -/
  | noSuchTable (name : String)
  /-- There is no way to walk the table: its key is ordered by a collation nobody knows. -/
  | noQuerySolution
  /-- A file name in URI form names a host. -/
  | invalidAuthority (authority : String)
  /-- A file name in URI form asks for an unknown mode of the given sort. -/
  | noSuchMode (sort mode : String)
  /-- A file name in URI form asks for more access than was granted. -/
  | modeNotAllowed (sort mode : String)
  /-- A file name in URI form asks for an unknown file system. -/
  | noSuchFileSystem (name : String)
deriving DecidableEq

namespace Error

/-- The number of a cause; the numbers above 255 extend a number below. -/
def code : Error → Nat
  | .cannotOpen => 14
  | .unreadable => 266
  | .notADatabase => 26
  | .malformed => 11
  | .malformedSchema _ _ behind => if behind then 18 else 11
  | .unsupportedFormat => 1
  | .tooBig => 18
  | .outOfMemory => 7
  | .noSuchTable _ => 1
  | .noQuerySolution => 1
  | .invalidAuthority _ => 1
  | .noSuchMode _ _ => 1
  | .modeNotAllowed _ _ => 3
  | .noSuchFileSystem _ => 1

/-- The wording of a cause. -/
def message : Error → String
  | .cannotOpen => "unable to open database file"
  | .unreadable => "disk I/O error"
  | .notADatabase => "file is not a database"
  | .malformed => "database disk image is malformed"
  | .malformedSchema name detail _ =>
    if detail.isEmpty then s!"malformed database schema ({name})"
    else s!"malformed database schema ({name}) - {detail}"
  | .unsupportedFormat => "unsupported file format"
  | .tooBig => "string or blob too big"
  | .outOfMemory => "out of memory"
  | .noSuchTable name => s!"no such table: {name}"
  | .noQuerySolution => "no query solution"
  | .invalidAuthority authority => s!"invalid uri authority: {authority}"
  | .noSuchMode sort mode => s!"no such {sort} mode: {mode}"
  | .modeNotAllowed sort mode => s!"{sort} mode not allowed: {mode}"
  | .noSuchFileSystem name => s!"no such vfs: {name}"

end Error
end FirstRow.Store
