import FirstRow.Sql.Expr.Basic
import FirstRow.Sql.Reader

/-!
# Terms

While an expression is read, more is known of it than what it says: how high its tree is, which is bounded, and the
first database other than the own one that a table in it is looked for in. A `Term` keeps this, and the readers here
make terms of others.
-/
namespace FirstRow.Sql

/-- An expression that was read. -/
structure Term where
  expr : Expr
  /-- The height of its tree. -/
  height : Nat
  /-- The height of the highest part that the height leaves out: of the values of a vector, or of a query. -/
  inside : Nat
  /-- The first database other than the own one that is named in it. -/
  foreign : Option (List UInt8)

namespace Term

/-- An expression without parts. -/
def leaf (e : Expr) : Term := ⟨e, 1, 0, none⟩

/-- The height of the highest of several terms. -/
def tallest (ts : List Term) : Nat :=
  ts.foldl (fun h t => max h t.height) 0

/-- The first foreign database that several terms name. -/
def firstForeign (ts : List Term) : Option (List UInt8) :=
  ts.findSome? foreign

/-- The expressions of several terms. -/
def exprs (ts : List Term) : List Expr :=
  ts.map expr

end Term

/-- A database that is not the own one. -/
def foreignDatabase? (database : Option (List UInt8)) : Option (List UInt8) :=
  database.filter fun d => !Text.Octet.spells "main" d

namespace Reader

open Term

/-- The greatest height of an expression. -/
def maxExprHeight : Nat := 1000

/-- What is wrong with an expression that is too high. -/
def tooHigh : String := s!"Expression tree is too large (maximum depth {maxExprHeight})"

/-- An expression of a height is in order. -/
def checkHeight (h : Nat) : Reader Unit :=
  if maxExprHeight < h then raise tooHigh else return ()

/-- An expression that is made of others. -/
def node (e : Expr) (parts : List Term) : Reader Term := do
  let h := tallest parts + 1
  checkHeight h
  return ⟨e, h, 0, firstForeign parts⟩

/-- An expression that holds something of a height. It is not measured behind a fault. -/
def holding (t : Term) (h : Nat) : Reader Term := do
  if (← get).fault.isSome then return t
  else
    let h := max (t.height - 1) h + 1
    checkHeight h
    return { t with height := h }

/-- An operation whose kind does not matter. -/
def operation (parts : List Term) : Reader Term :=
  node (.operation (exprs parts)) parts

/-- The negation of a term, if it is asked for. -/
def negatedIf (negated : Bool) (t : Term) : Reader Term :=
  if negated then operation [t] else return t

/-- Both of two terms. A side that is false makes it zero, whatever the other side says. -/
def both (a b : Term) : Reader Term :=
  if a.expr.isFalse || b.expr.isFalse then return .leaf (.integer [0x30]) else operation [a, b]

/-- Whether two terms are the same, or differ. A comparison with null itself asks whether the other one is null. -/
def sameTerm (negated : Bool) (a b : Term) : Reader Term := do
  let t ← node (.same a.expr b.expr) [a, b]
  match b.expr with
  | .null => return { t with expr := .isNull negated a.expr, foreign := a.foreign }
  | _ => return t

/-- Several values in parentheses. -/
def vectorOf (parts : List Term) : Term :=
  ⟨.vector (exprs parts), 1, tallest parts, firstForeign parts⟩

/-- The greatest number of arguments. -/
def maxArguments : Nat := 127

/-- A call. `written` is the name as it is written. -/
def callOf (form : CallForm) (written : List UInt8) (args : List Term) : Reader Term := do
  if maxArguments < args.length then
    let text := Text.Utf8.lossyString written
    raise s!"too many arguments on function {text}"
  holding ⟨.call form [] (exprs args), 1, 0, firstForeign args⟩ (tallest args)

/-- What is wrong with a member of a list that a vector of `n` values is looked for in. -/
def memberFault? (n : Nat) (member : Term) : Option String :=
  let k := match member.expr with
    | .vector es => es.length
    | _ => 1
  if k = n then none
  else
    let ending := if 1 < k then "s" else ""
    some s!"IN(...) element has {k} term{ending} - expected {n}"

/-- Whether a term is in a list. In no list there is anything. Of a single constant it is asked whether it is equal, and
a single query counts as the list of its rows. -/
def memberOfList (negated : Bool) (a : Term) (members : List Term) : Reader Term := do
  match members with
  | [] => return .leaf (.truth negated)
  | [m] =>
    if m.expr.isConstant false && !a.expr.isVector then
      let b ← node (.positive m.expr.settled) [m]
      negatedIf negated (← node (.compare a.expr b.expr) [a, b])
    else match m.expr with
      | .query _ => memberOfQuery a m.inside m.foreign
      | _ => memberOfSeveral a
  | _ => memberOfSeveral a
where
  /-- Whether a term is among the rows of a query of a height. -/
  memberOfQuery (a : Term) (h : Nat) (foreign : Option (List UInt8)) : Reader Term := do
    let t ← node (.member a.expr) [a]
    negatedIf negated (← holding { t with foreign := a.foreign.or foreign } h)
  /-- Whether a term is one of several. -/
  memberOfSeveral (a : Term) : Reader Term := do
    let t ← node (.operation (a.expr :: exprs members)) [a]
    match a.expr with
    | .vector es =>
      let n := es.length
      match members.findSome? (memberFault? n) with
      | some m =>
        raise m
        negatedIf negated t
      | none =>
        let t := { t with expr := .member a.expr, foreign := a.foreign.or (firstForeign members.reverse) }
        negatedIf negated (← holding t (members.foldl (fun h m => max h m.inside) 0))
    | _ => negatedIf negated (← holding { t with foreign := firstForeign (a :: members) } (tallest members))

end Reader
end FirstRow.Sql
