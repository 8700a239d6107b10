/-!
# Request methods

A method is a nonempty run of token characters, and letter case counts.
-/
namespace FirstRow.Http

/-- The characters of a token: letters, digits and fifteen marks. -/
def isTokenChar (c : Char) : Bool :=
  c.isAlphanum || c ∈ ['!', '#', '$', '%', '&', '\x27', '*', '+', '-', '.', '^', '_', '|', '~', Char.ofNat 0x60]

/-- A request method. -/
inductive Method where
  | get
  | head
  | other (token : List Char)
deriving DecidableEq

/-- Read a method; `none` if it is not a token. -/
def Method.ofChars? (s : List Char) : Option Method :=
  if s.isEmpty || !s.all isTokenChar then none
  else if s = "GET".toList then some .get
  else if s = "HEAD".toList then some .head
  else some (.other s)

end FirstRow.Http
