import FirstRow.Sql.Expr.Term
import FirstRow.Sql.Function
import FirstRow.Sql.Table

/-!
# Names in expressions

The expressions of computed columns, of keys, of conditions and of checks may only name columns of their table, and may
not do everything that other expressions do. `Table.resolve` finds the columns that are named and what is wrong. An
expression is gone through from the outside to the inside and from left to right. A fault most often ends the way, but
not always, and of several faults the last one counts.
-/
namespace FirstRow.Sql

/-- Where an expression stands. -/
inductive Place where
  | key
  | condition
  | check
  | generated
deriving DecidableEq

namespace Place

/-- The wording of a place. -/
def text : Place → String
  | key => "index expressions"
  | condition => "partial index WHERE clauses"
  | check => "CHECK constraints"
  | generated => "generated columns"

/-- What is wrong with something that must not stand in a place. -/
def prohibits (place : Place) (what : String) : Option String :=
  let text := place.text
  some s!"{what} prohibited in {text}"

/-- Whether rows are looked at where an expression stands: then the number of the row can be named, and names can stand
behind others. -/
def seesRows (place : Place) : Bool :=
  place = condition || place = check

end Place

/-- An expression whose names were looked up, the last fault that was found, and whether the way ended there. -/
structure Resolved (α : Type) where
  result : α
  fault : Option String
  ended : Bool

namespace Resolved

variable {α β : Type}

/-- Make something of what was looked up. -/
def map (f : α → β) (r : Resolved α) : Resolved β :=
  ⟨f r.result, r.fault, r.ended⟩

/-- The way ends here if there is a fault before it goes on. -/
def unlessFault (r : Resolved α) (fault : Option String) : Resolved α :=
  if fault.isSome then ⟨r.result, fault, true⟩ else r

/-- Go on with something else, which is left as it is if the way ended. -/
def andThen (r : Resolved α) (b : β) (f : Option String → Resolved β) : Resolved (α × β) :=
  if r.ended then ⟨(r.result, b), r.fault, true⟩ else (f r.fault).map (r.result, ·)

end Resolved

/-- What was found wrong when several expressions are gone through in turn. Behind one that is too high all others
count as too high. -/
structure Findings where
  fault : Option String
  tooHigh : Bool

namespace Table

variable (t : Table) (place : Place)

/-- Names of the row number that need not be declared. -/
def isRowidName (n : List UInt8) : Bool :=
  ["rowid", "_rowid_", "oid"].any (Text.Octet.spells · n)

/-- The column of a name, or the number of the row. -/
def named? (n : List UInt8) : Option (Option Nat) :=
  match t.column? n with
  | some i => some (some i)
  | none => if place.seesRows && !t.withoutRowid && isRowidName n then some none else none

/-- What is wrong with a name that names nothing. -/
def nameFault (ns : List (List UInt8)) : Option String :=
  let text := ".".intercalate (ns.map Text.Utf8.lossyString)
  some s!"no such column: {text}"

/-- A name alone. One in double quotation marks that names nothing is a string. -/
def resolveName (fault : Option String) (n : Name) : Resolved Expr :=
  match t.named? place n.text, n.inDoubleQuotes, n.truth? with
  | some i, _, _ => ⟨.column i, fault, false⟩
  | none, true, _ => ⟨.string n.text, fault, false⟩
  | none, false, some b => ⟨.truth b, fault, false⟩
  | none, false, none => ⟨.name n, nameFault [n.text], true⟩

/-- A name behind other names. Where rows are looked at, the name of a database does not count. -/
def resolvePath (fault : Option String) (owners : List (List UInt8)) (n : List UInt8) : Resolved Expr :=
  let fault := if place.seesRows then fault else place.prohibits "the \".\" operator"
  let owners' := if place.seesRows then owners.drop (owners.length - 1) else owners
  let owned := match owners' with
    | [table] => t.isNamed table
    | [database, table] => Text.Octet.spells "main" database && t.isNamed table
    | _ => false
  match if owned then t.named? place n else none with
  | some i => ⟨.column i, fault, false⟩
  | none => ⟨.path owners n, nameFault (owners' ++ [n]), true⟩

/-- Whether a literal is a probability: a real number that is not greater than one. -/
def isProbability : Expr → Bool
  | .real text => (Numeral.read text).toReal.bits ≤ 0x3FF0000000000000
  | _ => false

/-- What is wrong with a call, apart from its arguments. -/
def callFault (fault : Option String) (form : CallForm) (order args : List Expr) : Option String :=
  let name := Text.Utf8.lossyString form.name
  let named := Function.named form.name
  let exact := named.find? (·.takes args.length)
  let wrong := exact.isNone && !named.isEmpty
  let f := (exact.or named.head?).filter fun f => wrong || f.kind ≠ .hidden
  let called := f.filter fun _ => !wrong
  let fault :=
    if called.any (·.name == "likelihood") && !(args[1]?.any isProbability) then
      some s!"second argument to {name}() must be a constant between 0.0 and 1.0"
    else fault
  let fault :=
    if place ≠ .check && called.any (·.kind ≠ .scalar) then place.prohibits "non-deterministic functions"
    else fault
  if form.windowed && f.any (!·.hasWindow) then some s!"{name}() may not be used as a window function"
  else if called.any (·.hasWindow) then
    let kind := if form.windowed || called.any (·.kind = .window) then "window" else "aggregate"
    some s!"misuse of {kind} function {name}()"
  else if wrong then some s!"wrong number of arguments to function {name}()"
  else if form.windowed || form.filter then some s!"FILTER may not be used with non-aggregate {name}()"
  else if !order.isEmpty then some s!"ORDER BY may not be used with non-aggregate {name}()"
  else fault

/-- Whether an expression that was resolved can be null, as far as that is seen at a glance. -/
def canBeNull : Expr → Bool
  | .positive e | .negative e => canBeNull e
  | .integer _ | .real _ | .string _ | .blob _ => false
  | .column i => t.isNullable i
  | _ => true

/-- An expression without names. The way ends at it if there is a fault. -/
def leaf (fault : Option String) (e : Expr) : Resolved Expr :=
  ⟨e, fault, fault.isSome⟩

/-- What is wrong with expressions that should stand for equally many values. -/
def widthFault (fault : Option String) (a : Expr) (others : List Expr) : Option String :=
  if others.all (·.width = a.width) then fault else some "row value misused"

/-- An expression without the collations around it is another one. -/
def withCore (core : Expr) : Expr → Expr
  | .collate e c => .collate (withCore core e) c
  | _ => core

mutual

/-- Look up the names in an expression. -/
def resolve (fault : Option String) : Expr → Resolved Expr
  | .name n => t.resolveName place fault n
  | .path owners n => t.resolvePath place fault owners n
  | .variable => ⟨.null, place.prohibits "parameters", true⟩
  | .query columns => ⟨.query columns, place.prohibits "subqueries", true⟩
  | .nonempty => ⟨.nonempty, place.prohibits "subqueries", true⟩
  | .member e => ⟨.member e, place.prohibits "subqueries", true⟩
  | .isNull negated e =>
    let r := resolve fault e
    if t.canBeNull r.result then ⟨.isNull negated r.result, r.fault, false⟩
    else ⟨.integer [if negated then 0x31 else 0x30], r.fault, false⟩
  | .call form order args =>
    let r := resolveAll (callFault place fault form order args) args
    ⟨.call form order r.result, r.fault, false⟩
  | .negative e => ((resolve none e).map Expr.negative).unlessFault fault
  | .positive e => ((resolve none e).map Expr.positive).unlessFault fault
  | .cast e type => ((resolve none e).map (Expr.cast · type)).unlessFault fault
  | .collate e c => ((resolve none e).map (Expr.collate · c)).unlessFault fault
  | .operation es => ((resolveAll none es).map Expr.operation).unlessFault fault
  | .vector es => ((resolveAll none es).map Expr.vector).unlessFault fault
  | .compare a b =>
    let sides := (resolve none a).andThen b (resolve · b)
    (sides.map fun p => Expr.compare p.1 p.2).unlessFault (widthFault fault a [b])
  | .between e low high =>
    let bounds (fault : Option String) := (resolve fault low).andThen high (resolve · high)
    (((resolve none e).andThen (low, high) bounds).map fun p => Expr.between p.1 p.2.1 p.2.2).unlessFault
      (widthFault fault e [low, high])
  | .same a b =>
    let sides (left : Resolved Expr) (b : Expr) := left.andThen b fun fault => leaf fault b
    match b.withoutCollation with
    | .name n =>
      let r := t.resolveName place fault n
      let b := withCore r.result b
      match r.ended, r.result with
      | true, _ => ⟨.same a b, r.fault, true⟩
      | false, .truth _ => (sides (resolve r.fault a) b).map fun p => Expr.same p.1 p.2
      | false, _ => ((sides (resolve none a) b).map fun p => Expr.same p.1 p.2).unlessFault (widthFault r.fault a [b])
    | .truth _ => ((sides (resolve none a) b).map fun p => Expr.same p.1 p.2).unlessFault fault
    | _ =>
      let sides := (resolve none a).andThen b (resolve · b)
      (sides.map fun p => Expr.same p.1 p.2).unlessFault (widthFault fault a [b])
  | e => leaf fault e

/-- Look up the names in expressions, one after the other, until the way ends. -/
def resolveAll (fault : Option String) : List Expr → Resolved (List Expr)
  | [] => ⟨[], fault, false⟩
  | e :: es => ((resolve fault e).andThen es (resolveAll · es)).map fun p => p.1 :: p.2

end

/-- Look up the names in an expression when others were gone through before. -/
def resolveTerm (f : Findings) (term : Term) : Findings × Expr :=
  if f.tooHigh || Reader.maxExprHeight < term.height then (⟨some Reader.tooHigh, true⟩, term.expr)
  else
    let r := t.resolve place f.fault term.expr
    (⟨r.fault, false⟩, r.result)

/-- Look up the names in expressions, one after the other, up to the first fault. -/
def resolveTerms (f : Findings) : List Term → Findings
  | [] => f
  | term :: terms =>
    let (f, _) := t.resolveTerm place f term
    if f.fault.isSome then f else resolveTerms f terms

/-- The column of an index that a term of its key gives, or the fault that is found behind others. -/
def indexColumn (f : Findings) (k : KeyTerm) : Except String IndexColumn :=
  let (f, e) := t.resolveTerm .key f (k.map Expr.keyAsName).term
  match f.fault with
  | some m => .error m
  | none =>
    let column := match e.withoutCollation with
      | .column i => i
      | _ => none
    let order := (column.bind (t.columns[·]?)).map Column.order
    .ok ⟨column, e.collation?.getD (order.getD (Text.Utf8.ofString "BINARY"))⟩

end Table
end FirstRow.Sql
