import FirstRow.Disk
import FirstRow.Store.FileName
import FirstRow.Store.Image

/-!
# Opening stores

`Opening.target` says where on the disk a file name leads, `openImage` what is found there, and `afterOpening` what
the disk is like afterwards: the same, unless the name asks for a file to be made where there is none.
-/
namespace FirstRow.Store

/-- Where a file name leads. -/
inductive Target where
  /-- To an empty store that the disk does not hold. -/
  | transient
  | path (p : AbsolutePath)

namespace Opening

/-- The greatest number of octets in the name of a file. -/
def maxName : Nat := 255

/-- No path may be so long, not even on the way. -/
def maxPath : Nat := 512

/-- The longest addition to a path by which side files are named. -/
def sideName : Nat := 8

/-- The longest name of a file that lives in memory. -/
def maxMemoryName : Nat := 1016

/-- Go one name further. Below a file there is nothing, a directory holds no names that are too long, and two dots
take the name before them back without a look at the disk. -/
def extend (d : Disk) (path : AbsolutePath) (name : List UInt8) : Except Error AbsolutePath :=
  let next := path.extend name
  if next.length ≤ path.length then .ok next
  else if maxPath ≤ next.writtenLength then .error .cannotOpen
  else match d.node? path with
    | some (.file _) => .error .cannotOpen
    | some .directory => if maxName < name.length then .error .cannotOpen else .ok next
    | none => .ok next

/-- The absolute path of a written one. -/
def absolute (d : Disk) (workingDirectory : AbsolutePath) (written : List UInt8) : Except Error AbsolutePath := do
  let start := if written.head? = some AbsolutePath.separator then [] else workingDirectory
  let path ← (written.splitOn AbsolutePath.separator).foldlM (extend d) start
  if path.isEmpty || maxPath < path.writtenLength + sideName then .error .cannotOpen else .ok path

/-- Where a file name leads. -/
def target (d : Disk) (workingDirectory : AbsolutePath) (f : FileName) : Except Error Target :=
  if f.isTransient then .ok .transient
  else if f.fileSystem = .memory then
    if maxMemoryName < f.path.length then .error .cannotOpen else .ok .transient
  else (absolute d workingDirectory f.path).map .path

/-- Whether opening makes a file at a path: it must be asked for, there must be nothing, and there must be a
directory to hold it. -/
def makesFile (d : Disk) (f : FileName) (path : AbsolutePath) : Bool :=
  f.access = .create &&
    match d.node? path, d.node? path.dropLast with
    | none, some .directory => path.all fun name => name.length ≤ maxName
    | _, _ => false

/-- The file at a path. A directory can be opened for reading, and then has no content. -/
def fileAt (d : Disk) (f : FileName) (path : AbsolutePath) : Except Error ByteArray :=
  match d.node? path with
  | some (.file content) => .ok content
  | some .directory => .error (if f.access = .readOnly then .unreadable else .cannotOpen)
  | none => if makesFile d f path then .ok .empty else .error .cannotOpen

/-- The store that a file name leads to. -/
def image (d : Disk) (workingDirectory : AbsolutePath) (f : FileName) : Except Error Image := do
  match ← target d workingDirectory f with
  | .transient => .ok .empty
  | .path p => Image.ofFile (← fileAt d f p) f.logAllowed f.mayWrite

end Opening

/-- The store that a written file name leads to. -/
def openImage (d : Disk) (workingDirectory : AbsolutePath) (written : List UInt8) : Except Error Image :=
  FileName.parse written >>= Opening.image d workingDirectory

/-- The disk after a written file name was opened. -/
def afterOpening (d : Disk) (workingDirectory : AbsolutePath) (written : List UInt8) : Disk :=
  match FileName.parse written with
  | .error _ => d
  | .ok f =>
    match Opening.target d workingDirectory f with
    | .ok (.path p) => if Opening.makesFile d f p then d.put p (.file .empty) else d
    | _ => d

end FirstRow.Store
