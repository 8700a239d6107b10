import FirstRow.Sql.Clause

/-!
# Steps of triggers

A trigger takes steps when a table changes: it changes rows of tables and runs queries. The steps are read for what can
be wrong with them and for the foreign databases that they name. Of what a step names, conditions come before the
values that are set, and these before the tables that rows are taken from.
-/
namespace FirstRow.Sql.Reader

/-- The name of a table that a trigger changes. No database may be named. -/
def changedTable : Reader Unit := do
  let database ← phrase do
    discard name
    if ← takesSymbol "." then
      discard name
      return true
    else return false
  if database then
    raise
      "qualified table names are not allowed on INSERT, UPDATE, and DELETE statements within triggers"

/-- A hint at an index, which is not allowed. -/
def forbiddenIndexHint : Reader Unit := do
  let l ← peek
  let hint ← optional beginsIndexHint indexHint
  if hint.isSome then
    let what := if l.any (·.isWord "not") then "NOT INDEXED" else "INDEXED BY"
    raise s!"the {what} clause is not allowed on UPDATE or DELETE statements within triggers"

/-- A conflict resolution behind the word `OR`. -/
def alternative : Reader Unit := discard (clause ["or"] resolution)

/-- A column or several of them, and the value that they are set to. -/
def assignment (inner : Nested) : Reader Term := do
  let several ← if ← seesSymbol "(" then some <$> parenthesized names else do discard name; pure none
  discard (takeThat fun l => l.isSymbol "=" || l.isSymbol "==")
  let t ← inner.whole
  match several, t.expr with
  | none, _ | some _, .query _ => return t
  | some ns, e =>
    let columns := ns.length
    let values := e.width
    if columns ≠ values then raise s!"{columns} columns assigned {values} values"
    return t

/-- Columns and the values that they are set to. -/
def assignments (inner : Nested) : Reader (List Term) := separated (assignment inner)

/-- A condition, or nothing. -/
def condition (inner : Nested) : Reader (List Term) :=
  return (← clause ["where"] inner.whole).toList

/-- What is given out of changed rows, or nothing. A new trigger cannot give out anything. -/
def returning (inner : Nested) (isNew : Bool) : Reader Unit := do
  let columns ← clause ["returning"] (resultColumns inner)
  if columns.isSome && isNew then raise "cannot use RETURNING in a trigger"

/-- What is to be done with a row that breaks a constraint behind `DO`. -/
def remedy (inner : Nested) : Reader (List Term) := do
  if ← takesWord "nothing" then return []
  else
    words ["update", "set"]
    let ts ← assignments inner
    return ts ++ (← condition inner)

/-- What is to be done with rows that break constraints, or what is given out, or nothing; at most `n` constraints are
named. Gives the first foreign database that is named. -/
def remedies (inner : Nested) (isNew : Bool) : Nat → Reader (Option (List UInt8))
  | 0 => stop .depth
  | n + 1 => do
    if ← seesWord "on" then
      phrase do
        words ["on", "conflict"]
        if ← seesSymbol "(" then
          let target ← parenthesized (keyTerms inner)
          let only ← condition inner
          word "do"
          let done ← remedy inner
          let others ← remedies inner isNew n
          return (Term.firstForeign (target.map KeyTerm.term ++ only ++ done)).or others
        else
          word "do"
          let done ← remedy inner
          returning inner isNew
          return Term.firstForeign done
    else
      returning inner isNew
      return none

/-- A step that inserts rows. -/
def insertStep (inner : Nested) (isNew : Bool) : Reader (Option (List UInt8)) := do
  vacant
  phrase do
    if ← takesWord "insert" then alternative else word "replace"
  word "into"
  changedTable
  discard (optional (·.isSymbol "(") (parenthesized names))
  let q ← if ← sees beginsQuery then inner.query else stop .grammar
  let others ← remedies inner isNew maxHeight
  vacant
  return q.foreign.or others

/-- A step that changes values. -/
def updateStep (inner : Nested) : Reader (Option (List UInt8)) := do
  word "update"
  alternative
  changedTable
  forbiddenIndexHint
  word "set"
  let ts ← assignments inner
  let sources := (← clause ["from"] inner.tables).getD []
  let only ← condition inner
  vacant
  return ((Term.firstForeign (only ++ ts)).or (TableItem.foreign sources)).or (TableItem.foreignInside sources)

/-- A step that removes rows. -/
def deleteStep (inner : Nested) : Reader (Option (List UInt8)) := do
  words ["delete", "from"]
  changedTable
  forbiddenIndexHint
  let only ← condition inner
  vacant
  return Term.firstForeign only

/-- A step that runs a query. -/
def queryStep (inner : Nested) : Reader (Option (List UInt8)) := do
  vacant
  let q ← if ← sees beginsQuery then inner.query else stop .grammar
  vacant
  return q.foreign

/-- A step of a trigger, with the semicolon behind it. Gives the first foreign database that is named. -/
def triggerStep (inner : Nested) (isNew : Bool) : Reader (Option (List UInt8)) := do
  let foreign ← phrase do
    if ← seesWord "update" then updateStep inner
    else if ← seesWord "delete" then deleteStep inner
    else if ← seesOneOf ["insert", "replace"] then insertStep inner isNew
    else queryStep inner
  symbol ";"
  return foreign

/-- The steps of a trigger, which may be new or there already. Gives the first foreign database that is named. -/
def triggerSteps (isNew : Bool) : Reader (Option (List UInt8)) := do
  word "begin"
  let first ← phrase (triggerStep nested isNew)
  let others ← many (!·.isWord "end") (triggerStep nested isNew)
  word "end"
  return (first :: others).findSome? id

end FirstRow.Sql.Reader
