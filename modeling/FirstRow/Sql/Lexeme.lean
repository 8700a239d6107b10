import FirstRow.Text.Octet

/-!
# Lexemes of definitions

A definition is text whose smallest parts are words, names in quotation marks, literals and symbols; blanks and
comments separate them. `Lexeme.ofText` cuts a text into lexemes. Each keeps its own text and the blanks and comments
in front of it, so that any stretch of the text can be put together again.
-/
namespace FirstRow.Sql

/-- What a lexeme is. -/
inductive Token where
  /-- A bare word that has a meaning of its own, in lower case, and as it is written. Most of these words can still be
  names. -/
  | keyword (word : String) (spelling : List UInt8)
  /-- Any other bare word. -/
  | word (spelling : List UInt8)
  /-- A name in the quotation marks that begin with `mark`. -/
  | quoted (mark : UInt8) (content : List UInt8)
  | string (content : List UInt8)
  | integer (digits : List UInt8)
  | real (text : List UInt8)
  | blob (content : List UInt8)
  | variable
  | symbol (text : String)
deriving DecidableEq

/-- The words with a meaning of their own. -/
def keywords : List String :=
  ["abort", "action", "add", "after", "all", "alter", "always", "analyze", "and", "as", "asc", "attach",
    "autoincrement", "before", "begin", "between", "by", "cascade", "case", "cast", "check", "collate", "column",
    "commit", "conflict", "constraint", "create", "cross", "current", "current_date", "current_time",
    "current_timestamp", "database", "default", "deferrable", "deferred", "delete", "desc", "detach", "distinct", "do",
    "drop", "each", "else", "end", "escape", "except", "exclude", "exclusive", "exists", "explain", "fail", "filter",
    "first", "following", "for", "foreign", "from", "full", "generated", "glob", "group", "groups", "having", "if",
    "ignore", "immediate", "in", "index", "indexed", "initially", "inner", "insert", "instead", "intersect", "into",
    "is", "isnull", "join", "key", "last", "left", "like", "limit", "match", "materialized", "natural", "no", "not",
    "nothing", "notnull", "null", "nulls", "of", "offset", "on", "or", "order", "others", "outer", "over", "partition",
    "plan", "pragma", "preceding", "primary", "query", "raise", "range", "recursive", "references", "regexp",
    "reindex", "release", "rename", "replace", "restrict", "returning", "right", "rollback", "row", "rows",
    "savepoint", "select", "set", "table", "temp", "temporary", "then", "ties", "to", "transaction", "trigger",
    "unbounded", "union", "unique", "update", "using", "vacuum", "values", "view", "virtual", "when", "where",
    "window", "with", "without"]

/-- ASCII characters as a string. -/
def ascii (bs : List UInt8) : String :=
  String.ofList (bs.map fun b => Char.ofNat b.toNat)

/-- A bare word as a token. -/
def Token.ofWord (spelling : List UInt8) : Token :=
  let lower := ascii ((spelling.take 18).map Text.Octet.lower)
  if keywords.contains lower then .keyword lower spelling else .word spelling

/-- A part of a definition, with what separates it from the part before. -/
structure Lexeme where
  before : List UInt8
  text : List UInt8
  token : Token

namespace Lexeme

/-- The octets of words, the first one aside: letters, digits, underscore, dollar sign and everything beyond ASCII. -/
def isWordOctet (b : UInt8) : Bool :=
  Text.Octet.isLetter b || Text.Octet.isDigit b || b = 0x5F || b = 0x24 || 0x80 ≤ b

/-- The octets at which words can begin. -/
def beginsWord (b : UInt8) : Bool :=
  Text.Octet.isLetter b || b = 0x5F || 0x80 ≤ b

/-- What stands at the head of a text. -/
inductive Head where
  /-- White space or a comment. -/
  | blank
  /-- Nothing that can stand in a definition. -/
  | illegal
  | token (t : Token)

/-- The content in front of a closing quotation mark, which is written twice where it stands for itself. Gives the
content and the number of octets up to and with the closing mark, or nothing if there is none. -/
def quotedContent (mark : UInt8) : List UInt8 → Option (List UInt8 × Nat)
  | [] => none
  | b :: rest =>
    if b = mark then
      match rest with
      | c :: rest =>
        if c = mark then (quotedContent mark rest).map fun (s, n) => (mark :: s, n + 2) else some ([], 1)
      | [] => some ([], 1)
    else (quotedContent mark rest).map fun (s, n) => (b :: s, n + 1)

/-- The number of octets in a comment between `/*` and `*/` behind its first two; one that is not closed goes on to
the end. -/
def blockLength : List UInt8 → Nat
  | 0x2A :: 0x2F :: _ => 2
  | _ :: rest => blockLength rest + 1
  | [] => 0

/-- The number of octets in a decimal literal and whether it is a real one. -/
def decimalLength (bs : List UInt8) : Nat × Bool :=
  let whole := (bs.takeWhile Text.Octet.isDigit).length
  let (n, real) := match bs.drop whole with
    | 0x2E :: rest => (whole + 1 + (rest.takeWhile Text.Octet.isDigit).length, true)
    | _ => (whole, false)
  match bs.drop n with
  | e :: c :: rest =>
    if e = 0x65 || e = 0x45 then
      if Text.Octet.isDigit c then (n + 2 + (rest.takeWhile Text.Octet.isDigit).length, true)
      else if (c = 0x2B || c = 0x2D) && (rest.head?.map Text.Octet.isDigit).getD false then
        (n + 2 + (rest.takeWhile Text.Octet.isDigit).length, true)
      else (n, real)
    else (n, real)
  | _ => (n, real)

/-- A numeric literal. A word that follows at once makes it illegal. -/
def number (bs : List UInt8) : Head × Nat :=
  match bs with
  | 0x30 :: x :: d :: rest =>
    if (x = 0x78 || x = 0x58) && Text.Octet.isHexDigit d then
      let n := 3 + (rest.takeWhile Text.Octet.isHexDigit).length
      (.token (.integer (bs.take n)), n)
    else decimal bs
  | bs => decimal bs
where
  /-- A decimal literal. -/
  decimal (bs : List UInt8) : Head × Nat :=
    let (n, real) := decimalLength bs
    let junk := ((bs.drop n).takeWhile isWordOctet).length
    if junk ≠ 0 then (.illegal, n + junk)
    else if real then (.token (.real (bs.take n)), n)
    else (.token (.integer (bs.take n)), n)

/-- The octets that pairs of hexadecimal digits stand for. -/
def hexPairs : List UInt8 → List UInt8
  | a :: b :: rest =>
    (0x10 * (Text.Octet.hexValue? a).getD 0 + (Text.Octet.hexValue? b).getD 0).toUInt8 :: hexPairs rest
  | _ => []

/-- A blob literal behind its first two octets. -/
def blob (bs : List UInt8) : Head × Nat :=
  let digits := bs.takeWhile Text.Octet.isHexDigit
  match bs.drop digits.length with
  | 0x27 :: _ =>
    if digits.length % 2 = 0 then (.token (.blob (hexPairs digits)), digits.length + 1)
    else (.illegal, digits.length + 1)
  | rest =>
    let upTo := (rest.takeWhile (· ≠ 0x27)).length
    (.illegal, min bs.length (digits.length + upTo + 1))

/-- The name of a variable behind its sign: word octets and pairs of colons, and at the end, if there was a word
octet, perhaps something in parentheses. Gives the number of octets and whether the name is in order. -/
def variableLength : Bool → List UInt8 → Nat × Bool
  | named, [] => (0, named)
  | named, b :: rest =>
    if isWordOctet b then
      let (n, ok) := variableLength true rest
      (n + 1, ok)
    else if b = 0x28 && named then
      let inner := (rest.takeWhile fun c => !Text.Octet.isBlank c && c ≠ 0x29).length
      match rest.drop inner with
      | 0x29 :: _ => (inner + 2, true)
      | _ => (inner + 1, false)
    else if b = 0x3A then
      match rest with
      | 0x3A :: rest =>
        let (n, ok) := variableLength named rest
        (n + 2, ok)
      | _ => (0, named)
    else (0, named)

/-- What an octet begins, and how many octets that takes. -/
def head (b : UInt8) (rest : List UInt8) : Head × Nat :=
  let symbol (n : Nat) : Head × Nat := (.token (.symbol (ascii (b :: rest.take (n - 1)))), n)
  let next := rest.headD 0
  if b = 0x20 || b = 0x09 || b = 0x0A || b = 0x0C || b = 0x0D then
    (.blank, 1 + (rest.takeWhile Text.Octet.isBlank).length)
  else if b = 0xEF && next = 0xBB && (rest.drop 1).head? = some 0xBF then (.blank, 3)
  else if (b = 0x78 || b = 0x58) && next = 0x27 then
    let (t, n) := blob (rest.drop 1)
    (t, n + 2)
  else if beginsWord b then
    let w := rest.takeWhile isWordOctet
    (.token (.ofWord (b :: w)), 1 + w.length)
  else if Text.Octet.isDigit b then number (b :: rest)
  else if b = 0x27 || b = 0x22 || b = 0x60 then
    match quotedContent b rest with
    | none => (.illegal, 1 + rest.length)
    | some (s, n) => (.token (if b = 0x27 then .string s else .quoted b s), n + 1)
  else if b = 0x5B then
    let s := rest.takeWhile (· ≠ 0x5D)
    if s.length < rest.length then (.token (.quoted b s), s.length + 2) else (.illegal, 1 + rest.length)
  else if b = 0x2D then
    if next = 0x2D then (.blank, 1 + (rest.takeWhile (· ≠ 0x0A)).length)
    else if next = 0x3E then symbol (if (rest.drop 1).head? = some 0x3E then 3 else 2)
    else symbol 1
  else if b = 0x2F then
    if next = 0x2A && 2 ≤ rest.length then (.blank, 2 + blockLength (rest.drop 1)) else symbol 1
  else if b = 0x2E then if Text.Octet.isDigit next then number (b :: rest) else symbol 1
  else if b = 0x3D then symbol (if next = 0x3D then 2 else 1)
  else if b = 0x3C then symbol (if next = 0x3D || next = 0x3E || next = 0x3C then 2 else 1)
  else if b = 0x3E then symbol (if next = 0x3D || next = 0x3E then 2 else 1)
  else if b = 0x21 then if next = 0x3D then symbol 2 else (.illegal, 1)
  else if b = 0x7C then symbol (if next = 0x7C then 2 else 1)
  else if b ∈ [0x28, 0x29, 0x2A, 0x2B, 0x2C, 0x3B, 0x25, 0x26, 0x7E] then symbol 1
  else if b = 0x3F then (.token .variable, 1 + (rest.takeWhile Text.Octet.isDigit).length)
  else if b = 0x24 || b = 0x40 || b = 0x23 || b = 0x3A then
    let (n, ok) := variableLength false rest
    (if ok then .token .variable else .illegal, n + 1)
  else (.illegal, 1)

/-- Cut a text into lexemes, where `before` separates the first one from what came earlier. Gives the lexemes up to
the first octets that cannot stand in a definition, and these octets. -/
def cut (before : List UInt8) : List UInt8 → List Lexeme × Option (List UInt8)
  | [] => ([], none)
  | b :: rest =>
    let (h, n) := head b rest
    let text := (b :: rest).take n
    match h with
    | .blank => cut (before ++ text) (rest.drop (n - 1))
    | .illegal => ([], some text)
    | .token t =>
      let (ls, e) := cut [] (rest.drop (n - 1))
      (⟨before, text, t⟩ :: ls, e)
termination_by bs => bs.length
decreasing_by all_goals simp only [List.length_drop, List.length_cons]; omega

/-- Whether a lexeme is a given keyword. -/
def isWord (l : Lexeme) (w : String) : Bool :=
  match l.token with
  | .keyword k _ => k == w
  | _ => false

/-- Whether a lexeme is one of several keywords. -/
def isOneOf (l : Lexeme) (ws : List String) : Bool :=
  match l.token with
  | .keyword k _ => ws.contains k
  | _ => false

/-- Whether a lexeme is a given symbol. -/
def isSymbol (l : Lexeme) (s : String) : Bool :=
  match l.token with
  | .symbol t => t == s
  | _ => false

/-- A keyword as a mere name. -/
def asName (l : Lexeme) : Lexeme :=
  match l.token with
  | .keyword _ spelling => { l with token := .word spelling }
  | _ => l

/-- Words that are never names. -/
def reserved : List String :=
  ["add", "all", "alter", "and", "as", "autoincrement", "between", "case", "check", "collate", "commit", "constraint",
    "create", "default", "deferrable", "delete", "distinct", "drop", "else", "escape", "except", "exists", "filter",
    "foreign", "from", "group", "having", "in", "index", "insert", "intersect", "into", "is", "isnull", "join", "limit",
    "not", "nothing", "notnull", "null", "on", "or", "order", "over", "primary", "references", "returning", "select",
    "set", "table", "then", "to", "transaction", "union", "unique", "update", "using", "values", "when", "where",
    "window"]

/-- Words that are names of objects and columns, but not of types and aliases. -/
def joining : List String :=
  ["cross", "full", "inner", "left", "natural", "outer", "right"]

/-- The name that a lexeme gives to a table, a column or a constraint. -/
def name? (l : Lexeme) : Option (List UInt8) :=
  match l.token with
  | .keyword k w => if reserved.contains k then none else some w
  | .word w => some w
  | .quoted _ s => some s
  | .string s => some s
  | _ => none

/-- The name that a lexeme gives to a type, a collation or an alias. -/
def plainName? (l : Lexeme) : Option (List UInt8) :=
  if l.isOneOf ("indexed" :: joining) then none else l.name?

/-- Whether a lexeme counts as a name for the words that `settle` looks at. -/
def isNameLike (l : Lexeme) : Bool :=
  l.isOneOf ["window", "over"] || (!l.isWord "indexed" && l.name?.isSome)

/-- Decide of three words whether they are keywords: `WINDOW` in front of a name and `AS`, `OVER` behind a closing
parenthesis and in front of an opening one or a name, `FILTER` between a closing and an opening one. Anywhere else they
are names. `closed` says whether the lexeme in front is a closing parenthesis. -/
def settle (closed : Bool) : List Lexeme → List Lexeme
  | [] => []
  | l :: rest =>
    let nextIs (p : Lexeme → Bool) : Bool := rest.head?.any p
    let means :=
      if l.isWord "window" then nextIs isNameLike && (rest.drop 1).head?.any (·.isWord "as")
      else if l.isWord "over" then closed && nextIs fun n => n.isSymbol "(" || n.isNameLike
      else if l.isWord "filter" then closed && nextIs (·.isSymbol "(")
      else true
    (if means then l else l.asName) :: settle (l.isSymbol ")") rest

/-- The lexemes of a text up to the first octets that cannot stand in a definition, and these octets. -/
def ofText (text : List UInt8) : List Lexeme × Option (List UInt8) :=
  let (ls, illegal) := cut [] text
  (settle false ls, illegal)

/-- The text that lexemes were cut from, without what stands before the first. -/
def stretch : List Lexeme → List UInt8
  | [] => []
  | l :: ls => l.text ++ (ls.map fun l => l.before ++ l.text).flatten

end Lexeme
end FirstRow.Sql
