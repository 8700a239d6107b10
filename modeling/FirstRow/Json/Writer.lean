import FirstRow.Json.Basic
import FirstRow.Json.Number

/-!
# JSON text

The compact text of a value: no white space outside strings, members in their order. In strings only the quote, the
backslash and the characters below U+0020 are escaped; everything else stands as it is.
-/
namespace FirstRow.Json

/-- A hexadecimal digit in lower case. -/
def hexDigit (d : Nat) : Char :=
  if d < 10 then Char.ofNat (0x30 + d) else Char.ofNat (0x57 + d)

/-- A character inside a string. -/
def escape (c : Char) : List Char :=
  if c = '"' then ['\\', '"']
  else if c = '\\' then ['\\', '\\']
  else if c = '\x08' then ['\\', 'b']
  else if c = '\x0c' then ['\\', 'f']
  else if c = '\n' then ['\\', 'n']
  else if c = '\r' then ['\\', 'r']
  else if c = '\t' then ['\\', 't']
  else if c.toNat < 0x20 then ['\\', 'u', '0', '0', hexDigit (c.toNat / 16), hexDigit (c.toNat % 16)]
  else [c]

/-- A string with its quotes. -/
def quote (s : String) : List Char :=
  '"' :: s.toList.flatMap escape ++ ['"']

mutual

/-- The characters of a value. -/
def chars : Json → List Char
  | .null => "null".toList
  | .bool true => "true".toList
  | .bool false => "false".toList
  | .integer n => Decimal.integer n
  | .real x => realText x.val
  | .string s => quote s
  | .array elements => '[' :: elementChars elements ++ [']']
  | .object members => '{' :: memberChars members ++ ['}']

/-- The characters of the elements of an array. -/
def elementChars : List Json → List Char
  | [] => []
  | [v] => chars v
  | v :: rest => chars v ++ ',' :: elementChars rest

/-- The characters of the members of an object. -/
def memberChars : List (String × Json) → List Char
  | [] => []
  | [(k, v)] => quote k ++ ':' :: chars v
  | (k, v) :: rest => quote k ++ ':' :: chars v ++ ',' :: memberChars rest

end

/-- The text of a value. -/
def text (v : Json) : String :=
  String.ofList (chars v)

end FirstRow.Json
