import FirstRow.Binary64.Basic

/-!
# JSON values

Numbers keep apart what the data keeps apart: an integer is not a real, and reals are finite. The members of an
object are kept in the order in which they are written.
-/
namespace FirstRow

/-- A JSON value. -/
inductive Json where
  | null
  | bool (b : Bool)
  | integer (n : Int)
  | real (x : Binary64.Finite)
  | string (s : String)
  | array (elements : List Json)
  | object (members : List (String × Json))

namespace Json

/-- Put a member in its place among members in ascending order of keys; a second value for a key replaces the
first. -/
def insertMember (key : String) (value : Json) : List (String × Json) → List (String × Json)
  | [] => [(key, value)]
  | (k, v) :: rest =>
    if key < k then (key, value) :: (k, v) :: rest
    else if key = k then (key, value) :: rest
    else (k, v) :: insertMember key value rest

/-- The object with the given members, in ascending order of keys. -/
def ofMembers (members : List (String × Json)) : Json :=
  .object (members.foldl (fun acc m => insertMember m.1 m.2 acc) [])

end Json
end FirstRow
