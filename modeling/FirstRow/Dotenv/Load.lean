import FirstRow.Dotenv.Assignment
import FirstRow.Dotenv.LogicalLine
import FirstRow.Dotenv.Value
import FirstRow.Environment

/-!
# Loading an environment file

The assignments of a file are carried out in order up to the first malformed line. A variable is set only while it
has no text yet, so what the environment brought along wins, and after it the first assignment. A value with a NUL
cannot be set, and ends the loading at once.
-/
namespace FirstRow.Dotenv

/-- The values that the assignments of the file had so far, the latest first; `none` for an assignment without a
value. -/
abbrev Assigned := List (List Char × Option (List Char))

/-- The value of a name in a substitution: what the environment has behind the name, else the value assigned earlier
in the file, else nothing. -/
def substitute (env : Environment) (assigned : Assigned) (name : List Char) : List Char :=
  match env.behind? name with
  | some v => v
  | none => ((assigned.lookup name).getD none).getD []

/-- How loading ended. -/
inductive Outcome where
  /-- At the end of the file or at a malformed line. -/
  | finished
  /-- At a value that cannot be set. -/
  | nulInValue
deriving DecidableEq

/-- What a logical line assigns in the environment as it stands; `none` if the line is malformed. -/
inductive Attempt where
  | nothing
  | assign (key : List Char) (value : Option (List Char))
deriving DecidableEq

/-- Read one logical line. A text that is empty or a comment writes no value. -/
def attempt? (subst : List Char → List Char) (line : List Char) : Option Attempt :=
  match statement? line with
  | none => none
  | some .nothing => some .nothing
  | some (.assign key text) =>
    if text.isEmpty || text.head? = some '#' then some (.assign key none)
    else (value subst text).map fun v => .assign key (some v)

/-- Set a variable that has no text yet; `none` if the value cannot be set. -/
def setUnlessSet? (env : Environment) (key value : List Char) : Option Environment :=
  let name := String.ofList key
  match env.get? name with
  | some _ => some env
  | none => if value.contains '\x00' then none else some (env.set name value)

/-- Carry out logical lines. -/
def run (env : Environment) (assigned : Assigned) : List Logical → Environment × Outcome
  | [] => (env, .finished)
  | .broken :: _ => (env, .finished)
  | .line text :: rest =>
    match attempt? (substitute env assigned) text with
    | none => (env, .finished)
    | some .nothing => run env assigned rest
    | some (.assign key value) =>
      match setUnlessSet? env key (value.getD []) with
      | none => (env, .nulInValue)
      | some env => run env ((key, value) :: assigned) rest

/-- Load a file into an environment. -/
def load (env : Environment) (file : List UInt8) : Environment × Outcome :=
  run env [] (logicalLines file)

end FirstRow.Dotenv
