import FirstRow.Sql.Trigger

/-!
# Statements of a schema

Every object of a schema is described by the statement that made it. `Reader.statement` tells the kinds apart. Of
tables, virtual tables and triggers it reads the heads; what stands behind them is read later, since it depends on the
objects that are there already what is wrong with it.
-/
namespace FirstRow.Sql

/-- The name of an object in a statement, and whether nothing is to be done where the object exists. -/
structure Head where
  ifAbsent : Bool
  first : Lexeme
  /-- The name behind a dot, in front of which stands the name of a database. -/
  second : Option Lexeme

namespace Head

/-- Whether a database is named. -/
def qualified (h : Head) : Bool := h.second.isSome

/-- The lexeme of the name. -/
def lexeme (h : Head) : Lexeme := h.second.getD h.first

/-- The name. -/
def name (h : Head) : List UInt8 := h.lexeme.name?.getD []

end Head

/-- When a trigger acts. -/
inductive TriggerTime where
  | before
  | after
  | instead
deriving DecidableEq

/-- An index that is to be made. -/
structure IndexStatement where
  head : Head
  table : List UInt8
  terms : List KeyTerm
  condition : Option Term

/-- A trigger that is to be made. -/
structure TriggerStatement where
  head : Head
  time : TriggerTime
  table : List UInt8
  /-- The first foreign database that its condition names. -/
  foreign : Option (List UInt8)

/-- A statement that makes an object, or what of it comes first. -/
inductive Statement where
  | table (head : Head)
  | index (ix : IndexStatement)
  | trigger (t : TriggerStatement)
  | view (head : Head) (query : QueryTerm)
  | virtualTable (head : Head)

namespace Reader

/-- The name of an object, which may stand behind the name of a database, and what stands in front of it. -/
def head : Reader Head := do
  let absent ← clause ["if", "not", "exists"] (return ())
  let first ← nameLexeme
  let second ← optional (·.isSymbol ".") do
    symbol "."
    nameLexeme
  return ⟨absent.isSome, first, second⟩

/-- An index behind the word `INDEX`. -/
def indexStatement : Reader IndexStatement := do
  let head ← head
  word "on"
  let table ← name
  let terms ← parenthesized (keyTerms nested)
  let condition ← clause ["where"] expr
  return ⟨head, table, terms, condition⟩

/-- When a trigger acts; where nothing is said, before. -/
def triggerTime : Reader TriggerTime := do
  let time ← optional (·.isOneOf ["before", "after", "instead"]) do
    if ← takesWord "before" then return TriggerTime.before
    else if ← takesWord "after" then return .after
    else
      words ["instead", "of"]
      return .instead
  return time.getD .before

/-- What a trigger waits for. -/
def triggerEvent : Reader Unit := phrase do
  if ← takesWord "update" then
    if ← takesWord "of" then discard names
  else discard (oneOf ["delete", "insert"])

/-- The head of a trigger behind the word `TRIGGER`. -/
def triggerStatement : Reader TriggerStatement := do
  let head ← head
  let time ← triggerTime
  triggerEvent
  word "on"
  let table ← phrase do
    let first ← name
    if ← takesSymbol "." then name else return first
  discard (clause ["for", "each", "row"] (return ()))
  let condition ← clause ["when"] expr
  return ⟨head, time, table, condition.bind Term.foreign⟩

/-- A view behind the word `VIEW`. -/
def viewStatement : Reader Statement := do
  let head ← head
  discard columnNames?
  word "as"
  return .view head (← nested.query)

/-- What can stand between the commas of the arguments of a virtual table, at most `n` lexemes, where `depth`
parentheses are open beside that of the list. Stops at the parenthesis that closes the list. -/
def anything : Nat → Nat → Reader Unit
  | 0, _ => stop .grammar
  | n + 1, depth => do
    if ← seesSymbol ")" then
      if depth = 0 then return ()
      else
        let h := (← get).height
        symbol ")"
        modify ({ · with height := h - 2 })
        anything n (depth - 1)
    else if ← takesSymbol "(" then
      vacant
      anything n (depth + 1)
    else if depth = 0 && (← seesSymbol ",") then
      modify ({ · with height := 3 })
      symbol ","
      vacant
      anything n depth
    else
      joined (discard (takeThat fun _ => true))
      anything n depth

/-- The arguments of a virtual table in parentheses, or nothing. -/
def virtualTableArguments : Reader Unit := do
  modify ({ · with height := 1 })
  if ← takesSymbol "(" then
    vacant
    anything ((← get).size + 1) 0
    symbol ")"

/-- A virtual table behind the word `VIRTUAL`, without its arguments. -/
def virtualTableStatement : Reader Statement := do
  word "table"
  let head ← head
  word "using"
  discard name
  return .virtualTable head

/-- The head of a statement behind `CREATE`, or all of it where it is an index or a view. -/
def created : Reader Statement := do
  if ← takesWord "unique" then
    word "index"
    return .index (← indexStatement)
  else if ← seesWord "index" then
    vacant
    word "index"
    return .index (← indexStatement)
  else if ← takesWord "virtual" then virtualTableStatement
  else
    discard (optional (·.isOneOf ["temp", "temporary"]) (oneOf ["temp", "temporary"]))
    if ← takesWord "table" then return .table (← head)
    else if ← takesWord "view" then viewStatement
    else
      word "trigger"
      return .trigger (← triggerStatement)

/-- The head of a statement, or all of it where it is an index or a view. -/
def statement : Reader Statement := do
  word "create"
  phrase created

/-- The end of a statement. -/
def finished : Reader Unit := symbol ";"

end Reader

/-- What is wrong with a statement. -/
inductive Complaint where
  /-- What a text says, which may be empty. -/
  | detail (text : String)
  /-- An index comes by a name that another one has. -/
  | nameTaken
deriving DecidableEq

/-- The lexemes of a text, and the octets behind them that cannot stand in a statement, if there are any. -/
structure Source where
  lexemes : List Lexeme
  illegal : Option (List UInt8)

namespace Source

/-- The mark at the end of a text that does not end with a semicolon. It stands for one. -/
def endMark : Lexeme := ⟨[], [], .symbol ";"⟩

/-- The lexemes of a text. -/
def ofText (text : List UInt8) : Source :=
  let (ls, illegal) := Lexeme.ofText text
  let closed := illegal.isSome || ls.getLast?.any (·.isSymbol ";")
  ⟨if closed then ls else ls ++ [endMark], illegal⟩

/-- What is wrong where a reader stops. -/
def complaint (s : Source) (stop : Stop) : Complaint :=
  match stop.next, s.illegal with
  | none, some t =>
    let text := Text.Utf8.lossyString t
    .detail s!"unrecognized token: \"{text}\""
  | next, _ =>
    match stop.reason with
    | .nameTaken => .nameTaken
    | .fault m => .detail m
    | .depth => .detail "parser stack overflow"
    | .grammar =>
      match next.filter (!·.text.isEmpty) with
      | some l =>
        let text := Text.Utf8.lossyString l.text
        .detail s!"near \"{text}\": syntax error"
      | none => .detail "incomplete input"

end Source
end FirstRow.Sql
