import FirstRow.Text.Utf8

/-!
# The environment

Variables with a name and a value, in ascending order of names. A value is octets; where a text is asked for, a
value that is not UTF-8 counts as missing. Written out, a variable is its name, an equals sign and its value, and
`Environment.behind?` finds a variable in this form.
-/
namespace FirstRow

/-- The variables of a process, in ascending order of names. -/
structure Environment where
  bindings : List (String × List UInt8)

namespace Environment

/-- No variables. -/
def empty : Environment := ⟨[]⟩

/-- The octets of a variable. -/
def octets? (env : Environment) (name : String) : Option (List UInt8) :=
  env.bindings.lookup name

/-- The text of a variable, if it is set and UTF-8. -/
def get? (env : Environment) (name : String) : Option (List Char) :=
  match env.octets? name with
  | none => none
  | some bs => (Text.Utf8.decode bs).toOption

/-- The text behind `name=` in the written form of a variable, if it is UTF-8. A name with an equals sign of its own
reaches into the value: what follows `b=c` in `b=c=d` is `d`. -/
def behind? (env : Environment) (name : List Char) : Option (List Char) :=
  match name.dropWhile (· ≠ '=') with
  | [] => env.get? (String.ofList name)
  | _ :: within => do
    let value ← env.octets? (String.ofList (name.takeWhile (· ≠ '=')))
    let rest ← (Text.Utf8.encode (within ++ ['='])).isPrefixOf? value
    (Text.Utf8.decode rest).toOption

/-- Put a variable in its place among the others. -/
def insert (name : String) (value : List UInt8) : List (String × List UInt8) → List (String × List UInt8)
  | [] => [(name, value)]
  | (k, v) :: rest =>
    if name < k then (name, value) :: (k, v) :: rest
    else if name = k then (name, value) :: rest
    else (k, v) :: insert name value rest

/-- Set a variable to octets. -/
def setOctets (env : Environment) (name : String) (value : List UInt8) : Environment :=
  ⟨insert name value env.bindings⟩

/-- Set a variable to a text. -/
def set (env : Environment) (name : String) (value : List Char) : Environment :=
  env.setOctets name (Text.Utf8.encode value)

/-- The environment with the given variables; of several with one name the last counts. -/
def ofList (bindings : List (String × List UInt8)) : Environment :=
  bindings.foldl (fun env v => env.setOctets v.1 v.2) empty

end Environment
end FirstRow
