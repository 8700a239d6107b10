import FirstRow.Text.Blank
import FirstRow.Text.Utf8

/-!
# Logical lines of an environment file

A file is cut into physical lines at line feeds, and physical lines are joined to logical ones: a line goes on where
a quote is open, after a backslash, and where white space is the last thing on it. `logicalLines` gives them in order
and ends with `Logical.broken` where the file cannot be read on: at a line that is not UTF-8, or at an end of file
inside a logical line.
-/
namespace FirstRow.Dotenv

/-- Cut octets into physical lines. Each keeps its line feed; the last one may have none. -/
def splitLines : List UInt8 → List (List UInt8)
  | [] => []
  | b :: rest =>
    if b = 0x0A then [b] :: splitLines rest
    else match splitLines rest with
      | [] => [[b]]
      | line :: lines => (b :: line) :: lines

/-- The physical lines as text; `none` stands for one that is not UTF-8. -/
def physicalLines (bs : List UInt8) : List (Option (List Char)) :=
  (splitLines bs).map fun line => (Text.Utf8.decode line).toOption

/-- What surrounds the place that is read while lines are joined. -/
inductive Joint where
  | complete
  | blank
  | escape
  | weak
  | weakEscape
  | strong
  | strongEscape
deriving DecidableEq

namespace Joint

/-- White space that may stand in front of a comment. Line ends do not count. -/
def isGap (c : Char) : Bool :=
  Text.isBlank c && c ≠ '\n' && c ≠ '\r'

/-- What a character opens outside quotes. -/
def opened (c : Char) : Joint :=
  if c = '\\' then .escape
  else if c = '"' then .weak
  else if c = '\x27' then .strong
  else .complete

/-- Read one character; `none` where a comment begins. -/
def step : Joint → Char → Option Joint
  | .blank, c => if c = '#' then none else some (opened c)
  | .complete, c => if isGap c then some .blank else some (opened c)
  | .escape, _ => some .complete
  | .weak, c => some (if c = '\\' then .weakEscape else if c = '"' then .complete else .weak)
  | .weakEscape, _ => some .weak
  | .strong, c => some (if c = '\\' then .strongEscape else if c = '\x27' then .complete else .strong)
  | .strongEscape, _ => some .strong

/-- Read a text: what stands before the first comment, and the joint at its end, `none` if a comment was found. -/
def scan : Joint → List Char → List Char × Option Joint
  | j, [] => ([], some j)
  | j, c :: rest =>
    match j.step c with
    | none => ([], none)
    | some j =>
      let (kept, last) := scan j rest
      (c :: kept, last)

end Joint

/-- A logical line, or the place where reading stops. -/
inductive Logical where
  | line (text : List Char)
  | broken
deriving DecidableEq

/-- Drop one line feed at the end, and with it one carriage return in front of it. -/
def dropLineEnd (s : List Char) : List Char :=
  match s.reverse with
  | '\n' :: '\r' :: rest => rest.reverse
  | '\n' :: rest => rest.reverse
  | _ => s

/-- Whether the first character that is not white space is a number sign. -/
def isComment (s : List Char) : Bool :=
  (s.dropWhile Text.isBlank).head? = some '#'

/-- Join physical lines. `buffer` holds what the current logical line has so far, and `joint` how it goes on. -/
def join (buffer : List Char) (joint : Joint) : List (Option (List Char)) → List Logical
  | [] => if joint = .complete then [] else [.broken]
  | none :: _ => [.broken]
  | some line :: rest =>
    let whole := buffer ++ line
    if isComment whole then .line [] :: join [] .complete rest
    else match joint.scan line with
      | (kept, none) => .line (buffer ++ kept) :: join [] .complete rest
      | (_, some .complete) => .line (dropLineEnd whole) :: join [] .complete rest
      | (_, some joint) => join whole joint rest

/-- The octets of a byte-order mark. -/
def byteOrderMark : List UInt8 := [0xEF, 0xBB, 0xBF]

/-- Drop a byte-order mark at the start. -/
def dropMark (bs : List UInt8) : List UInt8 :=
  if byteOrderMark.isPrefixOf bs then bs.drop 3 else bs

/-- The logical lines of a file. -/
def logicalLines (file : List UInt8) : List Logical :=
  join [] .complete (physicalLines (dropMark file))

end FirstRow.Dotenv
