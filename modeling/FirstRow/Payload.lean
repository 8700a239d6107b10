import FirstRow.Json.Writer
import FirstRow.Json.Inspection

/-!
# What is served

The first row of the table, or nothing where the table has no rows. `Payload.text` is the body of an answer and
`Payload.inspection` the form in which the log shows it.
-/
namespace FirstRow

/-- The first two columns of a row, as JSON. -/
structure Row where
  id : Json
  data : Json

/-- A row to be served, or the empty object. -/
inductive Payload where
  | empty
  | row (r : Row)

namespace Payload

/-- A missing row is served as the empty object. -/
def ofRow? : Option Row → Payload
  | none => .empty
  | some r => .row r

/-- The object that is served: `id` first, then `data`. -/
def toJson : Payload → Json
  | .empty => .object []
  | .row r => .object [("id", r.id), ("data", r.data)]

/-- The text of the object. -/
def text (p : Payload) : String :=
  p.toJson.text

/-- The characters by which the log shows what is served. -/
def inspectionChars : Payload → List Char
  | .empty => "Empty(\x7b\x7d)".toList
  | .row r =>
    "Row(TestRow \x7b id: ".toList ++ r.id.inspection ++ ", data: ".toList ++ r.data.inspection ++ " \x7d)".toList

/-- The text by which the log shows what is served. -/
def inspection (p : Payload) : String :=
  String.ofList p.inspectionChars

end Payload
end FirstRow
