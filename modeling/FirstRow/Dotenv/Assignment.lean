import FirstRow.Text.Blank

/-!
# Assignments of an environment file

A logical line is blank, a comment, or `key=text`, the key perhaps behind the word `export`. Reading it splits off
the key; the text is read as a value afterwards.
-/
namespace FirstRow.Dotenv

/-- What a logical line says. -/
inductive Statement where
  /-- Nothing: white space or a comment. -/
  | nothing
  /-- Assign to the key the value that the text writes. -/
  | assign (key : List Char) (text : List Char)
deriving DecidableEq

/-- Drop white space at the front. -/
def trimStart (s : List Char) : List Char :=
  s.dropWhile Text.isBlank

/-- Drop white space at the end. -/
def trimEnd (s : List Char) : List Char :=
  (s.reverse.dropWhile Text.isBlank).reverse

/-- The characters with which a key begins. -/
def isKeyStart (c : Char) : Bool :=
  c.isAlpha || c = '_'

/-- The characters of a key. -/
def isKeyChar (c : Char) : Bool :=
  c.isAlphanum || c = '_' || c = '.'

/-- Whether a text is a key. -/
def isKey (s : List Char) : Bool :=
  match s with
  | [] => false
  | c :: _ => isKeyStart c && s.all isKeyChar

/-- Split a key off the front, and the white space behind it. -/
def key? (s : List Char) : Option (List Char × List Char) :=
  let key := s.takeWhile isKeyChar
  if isKey key then some (key, trimStart (s.drop key.length)) else none

/-- The word that may stand in front of a key. -/
def exportWord : List Char := "export".toList

/-- What stands behind the equals sign, without white space in front. -/
def afterEquals? : List Char → Option (List Char)
  | '=' :: rest => some (trimStart rest)
  | _ => none

/-- Read a logical line; `none` if it is malformed. The word `export` is a key itself where an equals sign
follows. -/
def statement? (line : List Char) : Option Statement :=
  let s := trimStart (trimEnd line)
  if s.isEmpty || s.head? = some '#' then some .nothing
  else
    match key? s with
    | none => none
    | some (key, rest) =>
      if key = exportWord && rest.head? ≠ some '=' then
        match key? rest with
        | none => none
        | some (key, rest) => (afterEquals? rest).map (.assign key)
      else (afterEquals? rest).map (.assign key)

end FirstRow.Dotenv
