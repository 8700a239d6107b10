import FirstRow.Sql.Expr.Reading

/-!
# Reading queries

A query is one or several parts that are put together, perhaps with named queries in front of them. Nothing runs it; it
is read for what can be wrong with it, for the number of its columns and for the foreign databases that it names. These
are found in the order in which a query is gone through: the last part comes first, and in a part the tables come
before the expressions and these before the queries in the place of tables.
-/
namespace FirstRow.Sql

/-- A part of a query. -/
structure QueryPart where
  columns : Nat
  height : Nat
  /-- The foreign database that is named by a table or in the condition of a join. -/
  tables : Option (List UInt8)
  /-- The one that is named elsewhere. -/
  others : Option (List UInt8)
  /-- The word that ties the part to the one in front of it. -/
  tie : String
  ordered : Bool
  limited : Bool
  /-- The part lists its values. -/
  listed : Bool

namespace TableItem

/-- The first foreign database that tables or the conditions of their joins name. -/
def foreign (ts : List TableItem) : Option (List UInt8) :=
  ts.findSome? fun t => t.database.or t.condition

/-- The first one that is named within them. -/
def foreignInside (ts : List TableItem) : Option (List UInt8) :=
  ts.findSome? inside

end TableItem

namespace Reader

/-! ## Tables -/

/-- The words that begin a join. -/
def beginsJoin (l : Lexeme) : Bool :=
  l.isSymbol "," || l.isOneOf ("join" :: Lexeme.joining)

/-- Whether words that join two tables go together. -/
def isJoin (ws : List Lexeme) : Bool :=
  let has (w : String) : Bool := ws.any (·.isWord w)
  let outer := has "left" || has "right" || has "full"
  ws.all (·.isOneOf Lexeme.joining) && !((has "inner" || has "cross") && (outer || has "outer")) &&
    !(has "outer" && !outer)

/-- The words that join two tables. -/
def join : Reader Unit := do
  if ← sees (·.isOneOf Lexeme.joining) then
    let first ← oneOf Lexeme.joining
    let second ← another
    let third ← if second.isEmpty then pure [] else another
    word "join"
    let ws := first :: second ++ third
    if !isJoin ws then
      let text := " ".intercalate (ws.map fun l => Text.Utf8.lossyString l.text)
      raise s!"unknown join type: {text}"
  else if ← takesSymbol "," then pure ()
  else word "join"
where
  /-- Another word, if there is one. -/
  another : Reader (List Lexeme) := do
    if ← sees (·.name?.isSome) then return [← nameLexeme] else return []

/-- Another name for something, or nothing. -/
def otherName : Reader (Option (List UInt8)) :=
  optional (fun l => l.isWord "as" || l.plainName?.isSome) do
    if ← takesWord "as" then name else plainName

/-- How a join chooses rows. -/
inductive JoinRule where
  | on (condition : Term)
  /-- By columns of the same names. -/
  | columns
  | free

namespace JoinRule

/-- The first foreign database that is named in a condition. -/
def foreign : JoinRule → Option (List UInt8)
  | on condition => condition.foreign
  | columns | free => none

/-- The word with which the rule begins, if there is one. -/
def word? : JoinRule → Option String
  | on _ => some "ON"
  | columns => some "USING"
  | free => none

end JoinRule

/-- How a join chooses rows. -/
def joinRule (inner : Nested) : Reader JoinRule := do
  let rule ← optional (·.isOneOf ["on", "using"]) do
    if ← takesWord "on" then return JoinRule.on (← inner.whole)
    else
      word "using"
      discard (parenthesized names)
      return JoinRule.columns
  return rule.getD .free

/-- The greatest number of tables in one part. -/
def maxTables : Nat := 200

/-- Add a table to others. The first one is not joined to anything. -/
def addTable (others : List TableItem) (t : TableItem) (rule : JoinRule) : Reader (List TableItem) := do
  if others.isEmpty then
    raiseIf (rule.word?.map fun w => s!"a JOIN clause is required before {w}")
  if maxTables ≤ others.length then raise s!"too many FROM clause terms, max: {maxTables}"
  return others ++ [{ t with condition := rule.foreign }]

/-- Which index is to be used for a table. -/
def indexHint : Reader Unit := do
  if ← takesWord "not" then word "indexed"
  else
    words ["indexed", "by"]
    discard name

/-- Whether a lexeme begins a hint at an index. -/
def beginsIndexHint (l : Lexeme) : Bool := l.isOneOf ["indexed", "not"]

/-- The name of a table, which may stand behind that of a database. Gives the database. -/
def tableName : Reader (Option (List UInt8)) := do
  let first ← name
  let second ← optional (·.isSymbol ".") do
    symbol "."
    name
  return second.map fun _ => first

/-- A table behind others. -/
def table (inner : Nested) (others : List TableItem) : Reader (List TableItem) := do
  if ← takesSymbol "(" then
    if ← sees beginsQuery then
      let q ← inner.query
      symbol ")"
      discard otherName
      addTable others ⟨none, none, q.foreign⟩ (← joinRule inner)
    else
      let ts ← inner.tables
      symbol ")"
      let named ← otherName
      let rule ← joinRule inner
      if others.isEmpty && named.isNone && rule.word?.isNone then return ts
      else match ts with
        | [t] => addTable others t rule
        | _ => addTable others ⟨none, none, (TableItem.foreign ts).or (TableItem.foreignInside ts)⟩ rule
  else
    let database := foreignDatabase? (← tableName)
    if ← seesSymbol "(" then
      let args ← parenthesized (listOrNothing inner)
      discard otherName
      addTable others ⟨database, none, Term.firstForeign args⟩ (← joinRule inner)
    else
      discard otherName
      if ← sees beginsIndexHint then phrase indexHint
      addTable others ⟨database, none, none⟩ (← joinRule inner)

/-- More tables behind others, at most `n` of them. -/
def tablesFrom (inner : Nested) : Nat → List TableItem → Reader (List TableItem)
  | 0, ts => return ts
  | n + 1, ts => do
    if ← sees beginsJoin then
      let ts ← joined do
        joined join
        table inner ts
      tablesFrom inner n ts
    else return ts

/-- Tables that are joined. -/
def tables (inner : Nested) : Reader (List TableItem) := do
  let ts ← phrase do
    vacant
    table inner []
  tablesFrom inner (← get).size ts

/-! ## Parts -/

/-- A column of a result: all columns of a table, or an expression that may have a name. -/
def resultColumn (inner : Nested) : Reader Term := do
  vacant
  match (← get).ahead with
  | l :: dot :: star :: _ =>
    if l.isSymbol "*" then every
    else if l.name?.isSome && dot.isSymbol "." && star.isSymbol "*" then
      discard name
      symbol "."
      symbol "*"
      return ⟨.nonempty, 2, 0, none⟩
    else expression
  | l :: _ => if l.isSymbol "*" then every else expression
  | [] => expression
where
  /-- All columns of all tables. -/
  every : Reader Term := do
    symbol "*"
    return .leaf .nonempty
  /-- An expression that may have a name. -/
  expression : Reader Term := do
    let t ← inner.whole
    vacant
    discard otherName
    return t

/-- The columns of a result. -/
def resultColumns (inner : Nested) : Reader (List Term) := do
  let first ← phrase do
    vacant
    resultColumn inner
  let others ← many (·.isSymbol ",") do
    joined (symbol ",")
    resultColumn inner
  return first :: others

/-- A clause that begins with some words and goes on with something, or nothing. -/
def clause {α : Type} (ws : List String) (r : Reader α) : Reader (Option α) :=
  optional (·.isOneOf (ws.take 1)) do
    words ws
    r

/-- How many rows are wanted, and from which one on. -/
def limit (inner : Nested) : Reader (Option Term) :=
  clause ["limit"] do
    let a ← inner.whole
    if ← takesWord "offset" then
      let b ← inner.whole
      operation [a, b]
    else if ← takesSymbol "," then
      let b ← inner.whole
      operation [b, a]
    else operation [a]

/-- A part that begins with `SELECT`. -/
def selection (inner : Nested) : Reader QueryPart := do
  word "select"
  discard (optional (·.isOneOf ["distinct", "all"]) (oneOf ["distinct", "all"]))
  let results ← resultColumns inner
  let ts ← clause ["from"] inner.tables
  let condition ← clause ["where"] inner.whole
  let groups ← clause ["group", "by"] inner.list
  let having ← clause ["having"] inner.whole
  let windows ← if ← seesWord "window" then phrase (namedWindows inner) else pure []
  let order ← orderBy inner
  let limit ← limit inner
  let ts := ts.getD []
  let parts := results ++ condition.toList ++ groups.getD [] ++ having.toList ++ order ++ limit.toList
  return {
    columns := results.length
    height := Term.tallest parts
    tables := TableItem.foreign ts
    others := ((Term.firstForeign parts).or (windows.findSome? fun w => w.2.foreign)).or (TableItem.foreignInside ts)
    tie := ""
    ordered := !order.isEmpty
    limited := limit.isSome
    listed := false }

/-- A row of values in parentheses. -/
def row (inner : Nested) : Reader (List Term) := parenthesized inner.list

/-- A row of values as a part. -/
def rowPart (tie : String) (ts : List Term) : QueryPart :=
  ⟨ts.length, Term.tallest ts, none, Term.firstForeign ts, tie, false, false, true⟩

/-- Parts that list their values, one for each row. -/
def values (inner : Nested) : Reader (List QueryPart) := do
  let first ← phrase do
    word "values"
    row inner
  let others ← many (·.isSymbol ",") do
    symbol ","
    row inner
  return rowPart "" first :: others.map (rowPart "UNION ALL")

/-- The first foreign database that a query names, given its parts and its named queries. The named queries belong to
the last part. -/
def queryForeign (parts : List QueryPart) (named : Option (List UInt8)) : Option (List UInt8) :=
  match parts.reverse with
  | [] => none
  | last :: others =>
    ((last.tables.or named).or last.others).or (others.findSome? fun p => p.tables.or p.others)

/-- A part behind others, tied to them by a word. Several rows of values count as one query. -/
def tied (tie : String) (parts : List QueryPart) : List QueryPart :=
  match parts with
  | [p] => [{ p with tie }]
  | ps => [⟨1, 1, none, queryForeign ps none, tie, false, false, false⟩]

/-- The first part of a query, or one behind a tie. -/
def part (inner : Nested) : Reader (List QueryPart) := do
  if ← seesWord "select" then return [← selection inner] else values inner

/-- The words that tie two parts. -/
def ties : List String := ["union", "except", "intersect"]

/-- A tie and the part behind it. -/
def tiedPart (inner : Nested) : Reader (List QueryPart) := do
  let tie ← phrase do
    if ← takesWord "union" then
      return if ← takesWord "all" then "UNION ALL" else "UNION"
    else if ← takesWord "except" then return "EXCEPT"
    else
      word "intersect"
      return "INTERSECT"
  return tied tie (← phrase (part inner))

/-- The parts of a query. -/
def parts (inner : Nested) : Reader (List QueryPart) := do
  let first ← phrase (part inner)
  let others ← many (·.isOneOf ties) (tiedPart inner)
  return first ++ others.flatten

/-- The greatest number of parts. -/
def maxParts : Nat := 500

/-- What is wrong with parts that are ordered or limited in front of others. They are gone through from the last one;
gives also how many were. -/
def orderFault (count : Nat) : List QueryPart → Nat × Option String
  | next :: p :: rest =>
    if p.ordered || p.limited then
      let what := if p.ordered then "ORDER BY" else "LIMIT"
      let tie := next.tie
      (count + 1, some s!"{what} clause should come after {tie} not before")
    else orderFault (count + 1) (p :: rest)
  | _ => (count, none)

/-- Check how parts are put together. -/
def checkParts (parts : List QueryPart) : Reader Unit := do
  let (count, fault) := orderFault 1 parts.reverse
  raiseIf fault
  if maxParts < count && !(parts.getLast?.any QueryPart.listed) then raise "too many terms in compound SELECT"

/-! ## Queries -/

/-- A named query: its name, and the first foreign database that it names. -/
def namedQuery (inner : Nested) : Reader (List UInt8 × Option (List UInt8)) := do
  let n ← name
  discard columnNames?
  phrase do
    word "as"
    if ← takesWord "not" then word "materialized" else discard (takesWord "materialized")
  symbol "("
  let q ← inner.query
  symbol ")"
  return (n, q.foreign)

/-- Check that a named query has another name than those in front of it. -/
def checkName (seen : List (List UInt8)) (n : List UInt8) : Reader (List (List UInt8)) := do
  if seen.any (Text.Octet.same n) then
    let text := Text.Utf8.lossyString n
    raise s!"duplicate WITH table name: {text}"
  return n :: seen

/-- More named queries behind others, at most `k` of them. -/
def namedQueriesFrom (inner : Nested) : Nat → List (List UInt8) → Reader (List (Option (List UInt8)))
  | 0, _ => return []
  | k + 1, seen => do
    if ← seesSymbol "," then
      let (seen, foreign) ← joined do
        symbol ","
        let (n, foreign) ← phrase (namedQuery inner)
        return (← checkName seen n, foreign)
      return foreign :: (← namedQueriesFrom inner k seen)
    else return []

/-- Named queries. Gives the first foreign database that they name. -/
def namedQueries (inner : Nested) : Reader (Option (List UInt8)) := do
  word "with"
  discard (takesWord "recursive")
  let (n, foreign) ← phrase (namedQuery inner)
  let others ← namedQueriesFrom inner (← get).size [n]
  return (foreign :: others).findSome? id

/-- A query. -/
def query (inner : Nested) : Reader QueryTerm := phrase do
  let named ← if ← seesWord "with" then namedQueries inner else pure none
  let ps ← parts inner
  checkParts ps
  return ⟨((ps.getLast?.map QueryPart.columns).getD 1), ps.foldl (fun h p => max h p.height) 0, queryForeign ps named⟩

end Reader

/-- The readers of what can be nested so deep. -/
def Nested.ofDepth : Nat → Nested
  | 0 => .nothing
  | n + 1 =>
    let inner := ofDepth n
    ⟨Reader.exprAt inner, Reader.query inner, Reader.tables inner⟩

/-- The readers of what can be nested. Each level takes at least one lexeme that stays on the stack. -/
def nested : Nested := .ofDepth (Reader.maxHeight + 1)

namespace Reader

/-- An expression. -/
def expr : Reader Term := nested.whole

end Reader
end FirstRow.Sql
