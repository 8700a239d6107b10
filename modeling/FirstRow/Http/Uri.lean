import FirstRow.Text.Utf8

/-!
# Request targets

A request target is `*`, an authority alone (`host:port`), a path with query and fragment, or the whole with a
scheme. Reading it gives its raw path: nothing is decoded, and query and fragment are dropped.
-/
namespace FirstRow.Http

/-- Why a text is not a request target. -/
inductive UriError where
  | invalidCharacter
  | invalidAuthority
  | invalidFormat
  | tooLong
  | schemeTooLong
  | empty
deriving DecidableEq

/-- The wording of an error. -/
def UriError.message : UriError → String
  | .invalidCharacter => "invalid uri character"
  | .invalidAuthority => "invalid authority"
  | .invalidFormat => "invalid format"
  | .tooLong => "uri too long"
  | .schemeTooLong => "scheme too long"
  | .empty => "empty string"

namespace Uri

/-- The greatest number of octets in a target. -/
def maxLength : Nat := 65534

/-- The greatest number of characters in a scheme. -/
def maxSchemeLength : Nat := 64

/-- The greatest number of colons between two landmarks of an authority. -/
def maxColons : Nat := 8

/-- The characters of a scheme. -/
def isSchemeChar (c : Char) : Bool :=
  c.isAlphanum || c ∈ ['+', '-', '.', '~']

/-- The characters that may stand in an authority, the ends of it included. -/
def isAuthorityChar (c : Char) : Bool :=
  c.isAlphanum ||
    c ∈ ['!', '#', '$', '&', '\x27', '(', ')', '*', '+', ',', '-', '.', '/', ':', ';', '=', '?', '@', '[', ']', '_',
      '~']

/-- The characters after which an authority is over. -/
def endsAuthority (c : Char) : Bool :=
  c = '/' || c = '?' || c = '#'

/-- Whether a text begins with an ASCII word, letter case aside. -/
def beginsWith (word : List Char) (s : List Char) : Bool :=
  decide ((s.take word.length).map Char.toLower = word)

/-- The length of the scheme in front of `://`, if there is one; the two common schemes may be written in any
letter case. The marker `://` on its own has no scheme, not even an empty one. -/
def schemeLength? (s : List Char) : Except UriError (Option Nat) :=
  if beginsWith "http://".toList s then .ok (some 4)
  else if beginsWith "https://".toList s then .ok (some 5)
  else
    let name := s.takeWhile isSchemeChar
    if 3 < s.length && (s.drop name.length).take 3 = "://".toList then
      if maxSchemeLength < name.length then .error .schemeTooLong else .ok (some name.length)
    else .ok none

/-- What is known of an authority while it is read. -/
structure Scan where
  /-- Colons since the last landmark. -/
  colons : Nat := 0
  openBracket : Bool := false
  closeBracket : Bool := false
  /-- A percent sign since the last landmark. -/
  percent : Bool := false
  /-- The character just read was an at sign. -/
  endsWithAt : Bool := false

/-- Read one character of an authority. A closing bracket and an at sign are landmarks: what stood before them was
a literal address or user information, where colons and percent signs are at home. -/
def Scan.step (st : Scan) (c : Char) : Except UriError Scan :=
  let st := { st with endsWithAt := false }
  if c = '%' then .ok { st with percent := true }
  else if !isAuthorityChar c then .error .invalidCharacter
  else if c = ':' then
    if maxColons ≤ st.colons then .error .invalidAuthority else .ok { st with colons := st.colons + 1 }
  else if c = '[' then
    if st.percent || st.openBracket then .error .invalidAuthority else .ok { st with openBracket := true }
  else if c = ']' then
    if !st.openBracket || st.closeBracket then .error .invalidAuthority
    else .ok { st with closeBracket := true, colons := 0, percent := false }
  else if c = '@' then .ok { st with endsWithAt := true, colons := 0, percent := false }
  else .ok st

/-- Split an authority off the front of a text. It may be empty; brackets must match, at most one colon may follow
the last landmark, and neither an at sign nor a percent sign may be left over. -/
def authority (s : List Char) : Except UriError (List Char × List Char) := do
  let name := s.takeWhile fun c => !endsAuthority c
  let st ← name.foldlM Scan.step {}
  if st.openBracket ≠ st.closeBracket || 1 < st.colons || st.endsWithAt || st.percent then
    .error .invalidAuthority
  else .ok (name, s.drop name.length)

/-- The characters that may stand in a path. Beyond those that need no escape, the quote and the braces are let
through. -/
def isPathChar (c : Char) : Bool :=
  let n := c.toNat
  n = 0x21 || n = 0x22 || (0x24 ≤ n && n ≤ 0x3B) || n = 0x3D || (0x40 ≤ n && n ≤ 0x5F) || (0x61 ≤ n && n ≤ 0x7E)
    || 0x7F ≤ n

/-- The characters that may stand in a query. A delete character may stand in a path, but not here. -/
def isQueryChar (c : Char) : Bool :=
  let n := c.toNat
  n = 0x21 || (0x24 ≤ n && n ≤ 0x3B) || n = 0x3D || (0x3F ≤ n && n ≠ 0x7F)

/-- The path in front of query and fragment. A query is checked up to the fragment, and a fragment not at all. -/
def pathOf (s : List Char) : Except UriError (List Char) :=
  let path := s.takeWhile fun c => c ≠ '?' && c ≠ '#'
  if !path.all isPathChar then .error .invalidCharacter
  else match s.drop path.length with
    | '?' :: query =>
      if (query.takeWhile (· ≠ '#')).all isQueryChar then .ok path else .error .invalidCharacter
    | _ => .ok path

/-- The raw path of a request target; an authority alone has the empty path. -/
def path (s : List Char) : Except UriError (List Char) := do
  if maxLength < (Text.Utf8.encode s).length then .error .tooLong
  else match s with
    | [] => .error .empty
    | ['/'] => .ok ['/']
    | ['*'] => .ok ['*']
    | [_] =>
      let (_, rest) ← authority s
      if rest.isEmpty then .ok [] else .error .invalidCharacter
    | '/' :: _ => pathOf s
    | _ =>
      match ← schemeLength? s with
      | none =>
        let (_, rest) ← authority s
        if rest.isEmpty then .ok [] else .error .invalidFormat
      | some n =>
        let s := s.drop (n + 3)
        if s.isEmpty then .error .empty
        else
          let (name, rest) ← authority s
          if name.isEmpty then .error .invalidFormat
          else
            let path ← pathOf rest
            .ok (if path.isEmpty then ['/'] else path)

end Uri
end FirstRow.Http
