import FirstRow.Store.Error
import FirstRow.Text.Octet

/-!
# File names of stores

A file name is a path as it stands or, behind `file:`, a URI: an authority that may only be the local host, a path, and
options that choose the access, the file system and what is known about the file. `FileName.parse` reads both forms.
A URI is cut at its raw separators first, and every piece is decoded on its own.
-/
namespace FirstRow.Store

/-- The access that is asked for. Opening starts with the right to read only. -/
inductive Access where
  | readOnly
  | readWrite
  /-- Also make the file where there is none. -/
  | create
  /-- Keep everything in memory and leave the disk alone. -/
  | memory
deriving DecidableEq

namespace Access

/-- What an access needs. -/
def needs : Access → Nat
  | .readOnly => 1
  | .readWrite => 2
  | .create => 6
  | .memory => 0

/-- What an access allows to ask for later. In memory everything is allowed. -/
def grants : Access → Nat
  | .memory => 128
  | a => a.needs

/-- Whether the holder of one access may ask for another. -/
def allows (held asked : Access) : Bool :=
  asked.needs ≤ held.grants

/-- The access that an option names. -/
def ofName? (name : List UInt8) : Option Access :=
  if name = Text.Utf8.ofString "ro" then some .readOnly
  else if name = Text.Utf8.ofString "rw" then some .readWrite
  else if name = Text.Utf8.ofString "rwc" then some .create
  else if name = Text.Utf8.ofString "memory" then some .memory
  else none

end Access

/-- The ways to reach files; they differ in how they lock. -/
inductive FileSystem where
  | standard
  | unlocked
  | lockFiles
  | exclusive
  /-- Files that live in memory. -/
  | memory
deriving DecidableEq

namespace FileSystem

/-- The file system of a name. -/
def ofName? (name : List UInt8) : Option FileSystem :=
  if name = Text.Utf8.ofString "unix" then some .standard
  else if name = Text.Utf8.ofString "unix-none" then some .unlocked
  else if name = Text.Utf8.ofString "unix-dotfile" then some .lockFiles
  else if name = Text.Utf8.ofString "unix-excl" then some .exclusive
  else if name = Text.Utf8.ofString "memdb" then some .memory
  else none

/-- Whether connections can share an index of a write-ahead log. -/
def sharesLog : FileSystem → Bool
  | .standard | .exclusive => true
  | .unlocked | .lockFiles | .memory => false

end FileSystem

/-- What a file name says. -/
structure FileName where
  path : List UInt8
  access : Access
  fileSystem : FileSystem
  /-- Locks are not to be used. -/
  unlocked : Bool
  /-- Nobody changes the file. -/
  immutable : Bool

namespace FileName

/-- A path as it stands, to be read only. -/
def plain (path : List UInt8) : FileName :=
  ⟨path, .readOnly, .standard, false, false⟩

/-- The name of the empty store in memory. -/
def inMemory : List UInt8 := Text.Utf8.ofString ":memory:"

/-- Whether a name leads to an empty store and not to the disk. -/
def isTransient (f : FileName) : Bool :=
  f.path.isEmpty || f.path = inMemory || f.access = .memory

/-- Whether a write-ahead log can be opened beside the file. A file that nobody changes needs none. -/
def logAllowed (f : FileName) : Bool :=
  f.immutable || (!f.unlocked && f.fileSystem.sharesLog)

/-- Whether the file is opened for writing. -/
def mayWrite (f : FileName) : Bool :=
  !f.immutable && (f.access = .readWrite || f.access = .create)

/-- What stands in front of a URI. -/
def marker : List UInt8 := Text.Utf8.ofString "file:"

/-- The pieces of a text before and behind the first `separator`. -/
def cut (separator : UInt8) (bs : List UInt8) : List UInt8 × List UInt8 :=
  (bs.takeWhile (· ≠ separator), (bs.dropWhile (· ≠ separator)).drop 1)

/-- Decode a piece of a URI. A percent sign without two hexadecimal digits stands for itself, and an encoded NUL ends
the piece. -/
def percentDecode : List UInt8 → List UInt8
  | 0x25 :: a :: b :: rest =>
    match Text.Octet.hexValue? a, Text.Octet.hexValue? b with
    | some x, some y =>
      if 0x10 * x + y = 0 then [] else (0x10 * x + y).toUInt8 :: percentDecode rest
    | _, _ => 0x25 :: percentDecode (a :: b :: rest)
  | c :: rest => c :: percentDecode rest
  | [] => []

/-- The path and the query of a URI behind its marker, without authority and fragment. -/
def splitAuthority (bs : List UInt8) : Except Error (List UInt8) :=
  match bs with
  | 0x2F :: 0x2F :: rest =>
    let authority := rest.takeWhile (· ≠ 0x2F)
    if authority = [] || authority = Text.Utf8.ofString "localhost" then .ok (rest.drop authority.length)
    else .error (.invalidAuthority (Text.Utf8.lossyString authority))
  | bs => .ok bs

/-- An option of a URI. -/
abbrev Setting := List UInt8 × List UInt8

/-- The options in a query; those without a name are passed over. -/
def settings (query : List UInt8) : List Setting :=
  ((query.splitOn 0x26).map fun piece =>
    let (name, value) := cut 0x3D piece
    (percentDecode name, percentDecode value)).filter fun s => !s.1.isEmpty

/-- The file system asked for last, and the access. -/
abbrev Choice := Option (List UInt8) × Access

/-- Take one option into account. -/
def choose (c : Choice) (s : Setting) : Except Error Choice :=
  let (name, value) := s
  if name = Text.Utf8.ofString "vfs" then .ok (some value, c.2)
  else if name = Text.Utf8.ofString "cache" then
    if value = Text.Utf8.ofString "shared" || value = Text.Utf8.ofString "private" then .ok c
    else .error (.noSuchMode "cache" (Text.Utf8.lossyString value))
  else if name = Text.Utf8.ofString "mode" then
    match Access.ofName? value with
    | none => .error (.noSuchMode "access" (Text.Utf8.lossyString value))
    | some a =>
      if c.2.allows a then .ok (c.1, a) else .error (.modeNotAllowed "access" (Text.Utf8.lossyString value))
  else .ok c

/-- A number that does not fit into 31 bits counts as zero. -/
def small (n : Nat) : Nat :=
  if n < 0x80000000 then n else 0

/-- The number at the head of the value of an option, decimal or hexadecimal, if there is one. -/
def number? (value : List UInt8) : Option Nat :=
  match value with
  | 0x30 :: x :: d :: rest =>
    if (x = 0x78 || x = 0x58) && Text.Octet.isHexDigit d then
      some (small (Text.Octet.hexadecimal ((d :: rest).takeWhile Text.Octet.isHexDigit)))
    else some (small (Text.Octet.value (value.takeWhile Text.Octet.isDigit)))
  | d :: _ =>
    if Text.Octet.isDigit d then some (small (Text.Octet.value (value.takeWhile Text.Octet.isDigit))) else none
  | [] => none

/-- Whether the value of an option means yes: a number whose last eight bits are not all zero, or a word. -/
def meansYes (value : List UInt8) : Bool :=
  match number? value with
  | some n => n % 0x100 ≠ 0
  | none => ["on", "yes", "true"].any (Text.Octet.spells · value)

/-- Whether an option means yes where it is given first. -/
def isSet (name : String) (ss : List Setting) : Bool :=
  match ss.lookup (Text.Utf8.ofString name) with
  | some value => meansYes value
  | none => false

/-- Read a URI behind its marker. The file system is looked up last. -/
def ofUri (bs : List UInt8) : Except Error FileName := do
  let bs ← splitAuthority bs
  let (path, query) := cut 0x3F (cut 0x23 bs).1
  let ss := settings query
  let (name?, access) ← ss.foldlM choose (none, .readOnly)
  let fileSystem ← match name? with
    | none => .ok .standard
    | some name =>
      match FileSystem.ofName? name with
      | none => .error (.noSuchFileSystem (Text.Utf8.lossyString name))
      | some fs => .ok fs
  .ok ⟨percentDecode path, access, fileSystem, isSet "nolock" ss, isSet "immutable" ss⟩

/-- Read a file name of either form. -/
def parse (bs : List UInt8) : Except Error FileName :=
  if marker.isPrefixOf bs then ofUri (bs.drop marker.length) else .ok (plain bs)

end FileName
end FirstRow.Store
