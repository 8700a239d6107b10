import FirstRow.Sql.Expr.Term

/-!
# Nesting

Expressions hold queries, queries hold expressions, and both hold each other in turn. `Nested` collects the readers of
what can be held, so that each of them can be written with the readers of the next inner level as a parameter. How deep
texts are nested is bounded by the height of the reader's stack.
-/
namespace FirstRow.Sql

/-- A query that was read: how many columns it has, how high the highest expression is that counts for its height, and
the first foreign database that it names. -/
structure QueryTerm where
  columns : Nat
  height : Nat
  foreign : Option (List UInt8)

/-- A table that rows are taken from, or a query in its place. The parts are foreign databases that are named: by the
table, in the condition of a join, and in the query or the arguments in the table's place. -/
structure TableItem where
  database : Option (List UInt8)
  condition : Option (List UInt8)
  inside : Option (List UInt8)

/-- The readers of what can be nested. -/
structure Nested where
  /-- An expression of operators that bind at least as tightly as a level says. If the flag is set, it ends in front of
  an `AND` of its own level. -/
  expr : Nat → Bool → Reader Term
  query : Reader QueryTerm
  tables : Reader (List TableItem)

/-- The readers of what cannot be nested any deeper. -/
def Nested.nothing : Nested where
  expr _ _ := Reader.stop .depth
  query := Reader.stop .depth
  tables := Reader.stop .depth

namespace Nested

variable (inner : Nested)

/-- A whole expression. -/
def whole : Reader Term := inner.expr 1 false

/-- Expressions with commas between them. -/
def list : Reader (List Term) := Reader.separated inner.whole

end Nested

namespace Reader

/-- Whether a lexeme begins a query. -/
def beginsQuery (l : Lexeme) : Bool := l.isOneOf ["select", "values", "with"]

/-- Whether a lexeme can begin an expression. -/
def beginsExpr (l : Lexeme) : Bool :=
  match l.token with
  | .integer _ | .real _ | .string _ | .blob _ | .variable => true
  | .symbol s => ["(", "+", "-", "~"].contains s
  | _ => l.name?.isSome || l.isOneOf ["not", "exists", "case", "null"]

/-- Expressions with commas between them, or nothing. -/
def listOrNothing (inner : Nested) : Reader (List Term) :=
  return (← optional beginsExpr inner.list).getD []

/-- A number with a sign. -/
def signedNumber : Reader Unit := phrase do
  discard (takes fun l => l.isSymbol "+" || l.isSymbol "-")
  take fun l => match l.token with
    | .integer _ | .real _ => some ()
    | _ => none

/-- The words of a type, and after them perhaps one or two numbers in parentheses. -/
def typeWords : Reader Unit := do
  phrase do
    discard plainName
    discard (many (·.plainName?.isSome) plainName)
  if ← takesSymbol "(" then
    signedNumber
    if ← takesSymbol "," then signedNumber
    symbol ")"

/-- A type, or nothing. Gives its text as it stands. -/
def type : Reader (List UInt8) := do
  let start ← get
  discard (optional (·.plainName?.isSome) typeWords)
  return Lexeme.stretch (start.ahead.take ((← get).place - start.place))

/-- The order of something: whether it is descending. -/
def order : Reader Bool := do
  let l ← optional (·.isOneOf ["asc", "desc"]) (oneOf ["asc", "desc"])
  return l.any (·.isWord "desc")

/-- A collation, or nothing. -/
def collation : Reader (Option (List UInt8)) := optional (·.isWord "collate") do
  word "collate"
  plainName

/-- Names with commas between them. -/
def names : Reader (List (List UInt8)) := separated name

/-- Names of columns with commas between them, each of which may have a collation and an order. -/
def columnNames : Reader (List (List UInt8)) := separated do
  let n ← name
  discard collation
  discard order
  return n

/-- Names of columns in parentheses, or nothing. -/
def columnNames? : Reader (Option (List (List UInt8))) :=
  optional (·.isSymbol "(") (parenthesized columnNames)

end Reader

/-- A term of a key. -/
structure KeyTerm where
  term : Term
  /-- Whether nulls are said to come first or last, where that is said. -/
  nullsFirst : Option Bool

/-- Change the expression of a term. -/
def KeyTerm.map (f : Expr → Expr) (k : KeyTerm) : KeyTerm :=
  { k with term := { k.term with expr := f k.term.expr } }

namespace Reader

/-- A term of a key. -/
def keyTerm (inner : Nested) : Reader KeyTerm := do
  let t ← inner.whole
  discard order
  let nulls ← optional (·.isWord "nulls") do
    word "nulls"
    oneOf ["first", "last"]
  return ⟨t, nulls.map (·.isWord "first")⟩

/-- The terms of a key. -/
def keyTerms (inner : Nested) : Reader (List KeyTerm) := separated (keyTerm inner)

/-- What rows are ordered by, or nothing. -/
def orderBy (inner : Nested) : Reader (List Term) := do
  let ts ← optional (·.isWord "order") do
    words ["order", "by"]
    keyTerms inner
  return (ts.getD []).map KeyTerm.term

end Reader
end FirstRow.Sql
