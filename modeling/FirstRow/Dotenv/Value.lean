import FirstRow.Text.Alphanumeric

/-!
# Values of an environment file

A value is read character by character. Single quotes take everything literally, double quotes allow escapes and
substitutions, and outside quotes a space or a tab ends the value. A substitution `$name` is over at the first
character that is no letter or number, and that character then stands for itself, even if it is a quote or a
backslash; `${name}` is over at its brace.
-/
namespace FirstRow.Dotenv

/-- What the next character of a value means. -/
inductive Mode where
  /-- It stands for itself, quotes, escapes and substitutions aside. -/
  | plain
  /-- It follows a backslash. -/
  | escaped
  /-- It stands in single quotes. -/
  | strong
  /-- It may belong to the name of a substitution. -/
  | name (braced : Bool) (read : List Char)
  /-- The value is over; a comment may follow. -/
  | ended
deriving DecidableEq

/-- How far a value has been read. -/
structure Reading where
  /-- Inside double quotes. -/
  weak : Bool
  mode : Mode
  output : List Char
deriving DecidableEq

namespace Reading

/-- Before the first character. -/
def start : Reading := ⟨false, .plain, []⟩

/-- Append to the value. -/
def emit (r : Reading) (s : List Char) : Reading :=
  { r with mode := .plain, output := r.output ++ s }

/-- What a character after a backslash stands for; most have no meaning there. -/
def unescape (c : Char) : Option Char :=
  if c = '\\' || c = '\x27' || c = '"' || c = '$' || c = ' ' then some c
  else if c = 'n' then some '\n'
  else none

/-- Read one character that stands neither in a comment nor in a name, escape or single quotes. -/
def plainStep (r : Reading) (c : Char) : Reading :=
  if c = '$' then { r with mode := .name false [] }
  else if r.weak then
    if c = '"' then { r with weak := false }
    else if c = '\\' then { r with mode := .escaped }
    else r.emit [c]
  else if c = '\x27' then { r with mode := .strong }
  else if c = '"' then { r with weak := true }
  else if c = '\\' then { r with mode := .escaped }
  else if c = ' ' || c = '\t' then { r with mode := .ended }
  else r.emit [c]

/-- Read one character of a name. -/
def nameStep (subst : List Char → List Char) (r : Reading) (braced : Bool) (read : List Char) (c : Char) :
    Reading :=
  if Text.isAlphanumeric c then { r with mode := .name braced (read ++ [c]) }
  else if braced then
    if c = '}' then r.emit (subst read) else { r with mode := .name true (read ++ [c]) }
  else if c = '{' && read.isEmpty then { r with mode := .name true [] }
  else if c = '$' then { r.emit (subst read) with mode := .name false [] }
  else r.emit (subst read ++ [c])

/-- Read a value from its first character on; `none` if it is malformed. At its end quotes and braces must be
closed; a name that is still being read is over, and a backslash without a follower is dropped. -/
def run (subst : List Char → List Char) : Reading → List Char → Option (List Char)
  | r, [] =>
    match r.mode with
    | .strong => none
    | .name true _ => none
    | .name false read => if r.weak then none else some (r.output ++ subst read)
    | _ => if r.weak then none else some r.output
  | r, c :: rest =>
    match r.mode with
    | .ended =>
      if c = ' ' || c = '\t' then run subst r rest
      else if c = '#' then some r.output
      else none
    | .escaped =>
      match unescape c with
      | some d => run subst (r.emit [d]) rest
      | none => none
    | .strong =>
      if c = '\x27' then run subst { r with mode := .plain } rest
      else run subst { r with output := r.output ++ [c] } rest
    | .name braced read => run subst (r.nameStep subst braced read c) rest
    | .plain => run subst (r.plainStep c) rest

end Reading

/-- The value that a text writes, where `subst` gives the value of a name; `none` if the text is malformed. -/
def value (subst : List Char → List Char) (s : List Char) : Option (List Char) :=
  Reading.start.run subst s

end FirstRow.Dotenv
