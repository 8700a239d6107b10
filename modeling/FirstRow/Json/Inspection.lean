import FirstRow.Json.Basic
import FirstRow.Json.Number
import FirstRow.Text.Quoted

/-!
# Inspection of JSON values

The text by which the log shows a value. It names the kind of every value, so that the string of a number, the
integer and the real stay apart, and strings are quoted.
-/
namespace FirstRow.Json

mutual

/-- The characters that show a value. -/
def inspection : Json → List Char
  | .null => "Null".toList
  | .bool true => "Bool(true)".toList
  | .bool false => "Bool(false)".toList
  | .integer n => "Number(".toList ++ Decimal.integer n ++ [')']
  | .real x => "Number(".toList ++ realText x.val ++ [')']
  | .string s => "String(".toList ++ Text.quoted s.toList ++ [')']
  | .array elements => "Array [".toList ++ elementInspection elements ++ [']']
  | .object members => "Object \x7b".toList ++ memberInspection members ++ ['}']

/-- The characters that show the elements of an array. -/
def elementInspection : List Json → List Char
  | [] => []
  | [v] => inspection v
  | v :: rest => inspection v ++ ',' :: ' ' :: elementInspection rest

/-- The characters that show the members of an object. -/
def memberInspection : List (String × Json) → List Char
  | [] => []
  | [(k, v)] => Text.quoted k.toList ++ ':' :: ' ' :: inspection v
  | (k, v) :: rest =>
    Text.quoted k.toList ++ ':' :: ' ' :: inspection v ++ ',' :: ' ' :: memberInspection rest

end

end FirstRow.Json
