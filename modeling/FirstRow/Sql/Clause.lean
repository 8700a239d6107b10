import FirstRow.Sql.Query

/-!
# Clauses of table definitions

The definition of a table is read clause by clause: a column with its type, a constraint on the column in front of it,
a constraint on the whole table, an option. `Clause.step` reads the next one where it is known what can come next.
Clauses that only constrain what can be stored are `inert`.
-/
namespace FirstRow.Sql

/-- What is to happen to a row that breaks a constraint. -/
inductive Conflict where
  | rollback
  | abort
  | fail
  | ignore
  | replace
deriving DecidableEq

/-- A clause of the definition of a table. -/
inductive Clause where
  | column (name type : List UInt8)
  /-- Nothing that matters to a reader. -/
  | inert
  | notNull
  | default (t : Term)
  | primaryKey (descending : Bool) (conflict : Option Conflict) (counts : Bool)
  | unique (conflict : Option Conflict)
  | check (t : Term)
  | collate (collation : List UInt8)
  /-- A computed column, with the word behind the expression if there is one. -/
  | generated (t : Term) (storage : Option (List UInt8))
  /-- A reference from one column, with the name of the other table as it is written. -/
  | references (table : List UInt8) (columns : Option Nat)
  | tablePrimaryKey (terms : List KeyTerm) (conflict : Option Conflict) (counts : Bool)
  | tableUnique (terms : List KeyTerm) (conflict : Option Conflict)
  | foreignKey (own : List (List UInt8)) (columns : Option Nat)
  | withoutRowid
  | strict
  | unknownOption (text : List UInt8)
  /-- The end of the definition. -/
  | finish
  /-- The end of a definition that takes its columns from a query. -/
  | finishQuery

namespace Reader

/-- What is to happen on a conflict. -/
def resolution : Reader Conflict := take fun l =>
  if l.isWord "rollback" then some .rollback
  else if l.isWord "abort" then some .abort
  else if l.isWord "fail" then some .fail
  else if l.isWord "ignore" then some .ignore
  else if l.isWord "replace" then some .replace
  else none

/-- What is to happen on a conflict, where that is said. -/
def conflict : Reader (Option Conflict) := clause ["on", "conflict"] resolution

/-- What a reference does when the row it refers to changes. -/
def referenceAction : Reader Unit := do
  if ← takesWord "match" then discard name
  else
    word "on"
    discard (oneOf ["insert", "delete", "update"])
    phrase do
      if ← takesWord "set" then discard (oneOf ["null", "default"])
      else if ← takesWord "no" then word "action"
      else discard (oneOf ["cascade", "restrict"])

/-- The rest of a reference behind the name of the other table: the number of columns named, if any are. -/
def referenceRest : Reader (Option Nat) := do
  let columns ← columnNames?
  vacant
  discard (many (·.isOneOf ["on", "match"]) referenceAction)
  return columns.map List.length

/-- When a reference is checked. -/
def deferral : Reader Unit := do
  discard (takesWord "not")
  word "deferrable"
  discard <| optional (·.isWord "initially") do
    word "initially"
    oneOf ["deferred", "immediate"]

/-- Whether a lexeme is a name that is not a string. -/
def isIdentifier (l : Lexeme) : Bool :=
  l.name?.isSome && !isString l && !l.isOneOf Lexeme.joining

/-- The default of a column: a literal, which may have a sign, a name, which stands for a string unless it is a truth
value, or an expression in parentheses. -/
def defaultTerm (inner : Nested) : Reader Term := do
  if ← seesSymbol "(" then parenthesized inner.whole
  else if ← takesSymbol "+" then
    vacant
    literal
  else if ← takesSymbol "-" then
    vacant
    let t ← literal
    node (.negative t.expr) [t]
  else
    vacant
    if ← sees fun l => (literal? l).isSome then literal
    else
      let l ← takeThat isIdentifier
      let n := l.name?.getD []
      let bare : Name := ⟨n, none⟩
      match l.token, bare.truth? with
      | .quoted _ _, _ => return .leaf (.string n)
      | _, some b => return .leaf (.truth b)
      | _, none => return .leaf (.string n)

/-- The expression of a computed column, and the word behind it. -/
def generatedRest (inner : Nested) : Reader Clause := phrase do
  let t ← parenthesized inner.whole
  if ← sees fun l => isIdentifier l && !l.isWord "indexed" then
    return .generated t (some (← takeThat isIdentifier).text)
  else return .generated t none

/-- The words that begin a constraint on a column. -/
def columnConstraints : List String :=
  ["constraint", "default", "null", "not", "primary", "unique", "check", "references", "deferrable", "collate",
    "generated", "as"]

/-- A constraint on a column. -/
def columnConstraint (inner : Nested) : Reader Clause := do
  if ← takesWord "constraint" then
    discard name
    return .inert
  else if ← takesWord "default" then return .default (← defaultTerm inner)
  else if ← takesWord "null" then
    discard conflict
    return .inert
  else if ← seesWord "deferrable" then
    deferral
    return .inert
  else if ← seesWord "not" then
    match (← get).ahead with
    | _ :: l :: _ =>
      if l.isWord "deferrable" then
        deferral
        return .inert
      else required
    | _ => required
  else if ← takesWord "primary" then
    word "key"
    let descending ← order
    let c ← conflict
    let counts ← optional (·.isWord "autoincrement") (word "autoincrement")
    return .primaryKey descending c counts.isSome
  else if ← takesWord "unique" then return .unique (← conflict)
  else if ← takesWord "check" then return .check (← parenthesized inner.whole)
  else if ← takesWord "references" then
    let l ← nameLexeme
    return .references l.text (← referenceRest)
  else if ← takesWord "collate" then return .collate (← plainName)
  else if ← takesWord "generated" then
    words ["always", "as"]
    generatedRest inner
  else
    word "as"
    generatedRest inner
where
  /-- Values must not be null. -/
  required : Reader Clause := do
    words ["not", "null"]
    discard conflict
    return .notNull

/-- The words that begin a constraint on the table. -/
def tableConstraints : List String := ["constraint", "primary", "unique", "check", "foreign"]

/-- A constraint on the table. -/
def tableConstraint (inner : Nested) : Reader Clause := do
  if ← takesWord "constraint" then
    discard name
    return .inert
  else if ← takesWord "primary" then
    word "key"
    let (terms, counts) ← parenthesized do
      let terms ← keyTerms inner
      let counts ← optional (·.isWord "autoincrement") (word "autoincrement")
      return (terms, counts.isSome)
    return .tablePrimaryKey terms (← conflict) counts
  else if ← takesWord "unique" then
    let terms ← parenthesized (keyTerms inner)
    return .tableUnique terms (← conflict)
  else if ← takesWord "check" then
    let t ← parenthesized inner.whole
    discard conflict
    return .check t
  else
    words ["foreign", "key"]
    let own ← parenthesized columnNames
    word "references"
    discard name
    let columns ← referenceRest
    discard (optional (·.isOneOf ["not", "deferrable"]) deferral)
    return .foreignKey own columns

/-- An option of the table. -/
def tableOption : Reader Clause := do
  if ← takesWord "without" then
    let l ← nameLexeme
    return if Text.Octet.spells "rowid" l.text then .withoutRowid else .unknownOption l.text
  else
    let l ← nameLexeme
    return if Text.Octet.spells "strict" l.text then .strict else .unknownOption l.text

end Reader

namespace Clause

/-- What can come next in the definition of a table. -/
inductive Expecting where
  /-- The head was read. -/
  | body
  /-- A column, which may stand behind others. -/
  | column (behind : Bool)
  /-- A constraint on the last column, or what ends that column. -/
  | columnEnd (behind : Bool)
  /-- A column or the first constraint on the table. -/
  | columnOrConstraint
  /-- The first constraint on the table. -/
  | constraint
  /-- A constraint on the table, a comma or the end. -/
  | constraintEnd
  /-- A constraint on the table behind others. -/
  | nextConstraint
  /-- An option, a comma or the end of the definition. -/
  | firstOption
  /-- An option behind a comma. -/
  | option
  /-- A comma in front of an option, or the end of the definition. -/
  | optionEnd
  /-- The end of the statement. -/
  | ending
  | nothing
deriving DecidableEq

namespace Expecting

/-- The height of the reader's stack: the head counts as one, and so do the columns that were read, the constraints and
the options. -/
def height : Expecting → Nat
  | .body => 1
  | .column behind => if behind then 4 else 2
  | .columnEnd behind => if behind then 6 else 4
  | .columnOrConstraint | .constraint => 4
  | .constraintEnd => 5
  | .nextConstraint => 6
  | .firstOption => 5
  | .option => 7
  | .optionEnd => 6
  | .ending => 1
  | .nothing => 1

end Expecting

open Reader in
/-- Read the next clause, or go on without one, and say what can come then. -/
def step (inner : Nested) : Expecting → Reader (Option Clause × Expecting)
  | .body => do
    if ← takesSymbol "(" then return (none, .column false)
    else
      word "as"
      discard inner.query
      return (some .finishQuery, .ending)
  | .column behind => do
    let n ← name
    let t ← type
    return (some (.column n t), .columnEnd behind)
  | .columnEnd behind => do
    if ← seesOneOf columnConstraints then return (some (← columnConstraint inner), .columnEnd behind)
    else if ← takesSymbol "," then return (none, .columnOrConstraint)
    else
      symbol ")"
      return (none, .firstOption)
  | .columnOrConstraint => do
    if ← seesOneOf tableConstraints then return (none, .constraint) else return (none, .column true)
  | .constraint | .nextConstraint => do
    return (some (← tableConstraint inner), .constraintEnd)
  | .constraintEnd => do
    if ← takesSymbol "," then return (none, .nextConstraint)
    else if ← takesSymbol ")" then return (none, .firstOption)
    else return (none, .nextConstraint)
  | .firstOption => do
    if ← sees (·.name?.isSome) then return (some (← tableOption), .optionEnd) else return (none, .optionEnd)
  | .option => do
    return (some (← tableOption), .optionEnd)
  | .optionEnd => do
    if ← takesSymbol "," then return (none, .option) else return (some .finish, .ending)
  | .ending => do
    symbol ";"
    return (none, .nothing)
  | .nothing => return (none, .nothing)

end Clause
end FirstRow.Sql
