import FirstRow.Text.Utf8

/-!
# The disk

Files and directories by absolute path. A path is the list of its names from the root on, and a name is octets.
Besides the tree itself this module says which entry a written path leads to: empty names and single dots are passed
over, and two dots take the name before them back without a look at the disk.
-/
namespace FirstRow

/-- The names of an absolute path, from the root on. -/
abbrev AbsolutePath := List (List UInt8)

/-- What stands at a path. -/
inductive Node where
  | file (content : ByteArray)
  | directory

/-- A tree of files and directories. The root is always there. -/
structure Disk where
  entries : List (AbsolutePath × Node)

namespace Disk

/-- What stands at a path, if anything. -/
def node? (d : Disk) : AbsolutePath → Option Node
  | [] => some .directory
  | path => d.entries.lookup path

/-- Remove an entry and, if it is a directory, what stands below it. -/
def remove (d : Disk) (path : AbsolutePath) : Disk :=
  ⟨d.entries.filter fun e => !path.isPrefixOf e.1⟩

/-- Make a directory if nothing stands at the path. -/
def makeDirectory (d : Disk) (path : AbsolutePath) : Disk :=
  match d.node? path with
  | some _ => d
  | none => ⟨(path, .directory) :: d.entries⟩

/-- Make the directories above a path. -/
def makeParents (d : Disk) (path : AbsolutePath) : Disk :=
  (List.range path.length).foldl (fun d n => d.makeDirectory (path.take n)) d

/-- Put a node at a path, in place of what stands there. -/
def put (d : Disk) (path : AbsolutePath) (node : Node) : Disk :=
  ⟨(path, node) :: ((d.remove path).makeParents path).entries⟩

end Disk

namespace AbsolutePath

/-- The octet between names. -/
def separator : UInt8 := 0x2F

/-- Go one name further. -/
def extend (path : AbsolutePath) (name : List UInt8) : AbsolutePath :=
  if name = [] || name = [0x2E] then path
  else if name = [0x2E, 0x2E] then path.dropLast
  else path ++ [name]

/-- The path that is written, taken from the working directory if it does not begin at the root. -/
def ofOctets (workingDirectory : AbsolutePath) (written : List UInt8) : AbsolutePath :=
  (written.splitOn separator).foldl extend (if written.head? = some separator then [] else workingDirectory)

/-- The path that is written as text. -/
def ofString (workingDirectory : AbsolutePath) (written : String) : AbsolutePath :=
  ofOctets workingDirectory (Text.Utf8.ofString written)

/-- The number of octets of the path when it is written out. -/
def writtenLength (path : AbsolutePath) : Nat :=
  path.foldl (fun n name => n + name.length + 1) 0

end AbsolutePath
end FirstRow
