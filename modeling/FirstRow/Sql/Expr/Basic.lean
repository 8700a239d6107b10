import FirstRow.Text.Octet

/-!
# Expressions

Expressions stand in defaults, in computed columns, in keys and in conditions. Nothing computes them when a row is
read, so of most operations only the operands are kept, in order: they say which columns are named. What can make a
default is kept in full.
-/
namespace FirstRow.Sql

/-- The value of an integer literal of 31 bits. Behind the zeros in front, decimal literals have ten digits at most and
hexadecimal ones eight. -/
def smallInteger? (digits : List UInt8) : Option Nat :=
  match digits with
  | 0x30 :: x :: rest =>
    if x = 0x78 || x = 0x58 then bounded 8 (rest.dropWhile (· = 0x30)) Text.Octet.hexadecimal
    else bounded 10 ((x :: rest).dropWhile (· = 0x30)) Text.Octet.value
  | ds => bounded 10 (ds.dropWhile (· = 0x30)) Text.Octet.value
where
  /-- The value of at most `n` digits, if it has 31 bits. -/
  bounded (n : Nat) (digits : List UInt8) (value : List UInt8 → Nat) : Option Nat :=
    if n < digits.length || 0x7FFFFFFF < value digits then none else some (value digits)

/-- A name in an expression. -/
structure Name where
  text : List UInt8
  /-- The quotation mark in front of it, if there is one. -/
  mark : Option UInt8
deriving DecidableEq

namespace Name

/-- Whether a name is a bare word, which is given in lower case. -/
def isBare (n : Name) (w : String) : Bool :=
  n.mark = none && Text.Octet.spells w n.text

/-- The value of the two names that are truth values. -/
def truth? (n : Name) : Option Bool :=
  if n.isBare "true" then some true else if n.isBare "false" then some false else none

/-- Whether a name stands in double quotation marks: if it names nothing it is a string. -/
def inDoubleQuotes (n : Name) : Bool :=
  n.mark = some 0x22

end Name

/-- How a function is called, apart from the arguments. -/
structure CallForm where
  name : List UInt8
  /-- The call says over which rows of the result it ranges. -/
  windowed : Bool
  /-- The call says which rows it takes. -/
  filter : Bool

/-- An expression. -/
inductive Expr where
  | null
  | integer (digits : List UInt8)
  | real (text : List UInt8)
  | string (content : List UInt8)
  | blob (content : List UInt8)
  | truth (b : Bool)
  | name (n : Name)
  /-- A name with one or two names in front of it. -/
  | path (owners : List (List UInt8)) (n : List UInt8)
  /-- A column that a name was found to stand for, or the number of the row. -/
  | column (i : Option Nat)
  | variable
  | negative (e : Expr)
  | positive (e : Expr)
  /-- An operation whose kind does not matter. -/
  | operation (es : List Expr)
  /-- Whether a value is null, or, negated, whether it is not. -/
  | isNull (negated : Bool) (e : Expr)
  /-- A comparison of two values by size. -/
  | compare (a b : Expr)
  /-- Whether two values are the same, or whether they differ, where nulls are the same. -/
  | same (a b : Expr)
  | between (e low high : Expr)
  | cast (e : Expr) (type : List UInt8)
  | collate (e : Expr) (collation : List UInt8)
  /-- Several values in parentheses. -/
  | vector (es : List Expr)
  | call (form : CallForm) (order args : List Expr)
  /-- A query in parentheses, with the number of its columns. -/
  | query (columns : Nat)
  /-- Whether a query has rows. -/
  | nonempty
  /-- Whether a query gives a value. -/
  | member (e : Expr)
  /-- The end of what a trigger does. -/
  | raise

namespace Expr

/-- An expression without the collations around it. -/
def withoutCollation : Expr → Expr
  | collate e _ => withoutCollation e
  | e => e

/-- The collation that stands outermost, if there is one. -/
def collation? : Expr → Option (List UInt8)
  | collate _ c => some c
  | _ => none

/-- A string taken as a name. -/
def stringAsName : Expr → Expr
  | string s => name ⟨s, some 0x27⟩
  | e => e

/-- A string taken as a name, also below one collation. -/
def keyAsName : Expr → Expr
  | collate e c => collate e.stringAsName c
  | e => e.stringAsName

/-- A string taken as a name, also below any number of collations. -/
def deepAsName : Expr → Expr
  | collate e c => collate e.deepAsName c
  | e => e.stringAsName

/-- The number of values that an expression stands for. -/
def width : Expr → Nat
  | vector es => es.length
  | query columns => columns
  | _ => 1

/-- Whether an expression is one of several values. -/
def isVector : Expr → Bool
  | vector _ => true
  | _ => false

/-- Whether an expression stands for false without a look at anything: the literal zero, and what was found to be
false. -/
def isFalse : Expr → Bool
  | truth b => !b
  | integer ds => smallInteger? ds = some 0
  | _ => false

mutual

/-- Whether an expression names no column and asks no query, so that it can be a default. Calls are allowed if
`calls` is set. -/
def isConstant (calls : Bool) : Expr → Bool
  | name n => n.truth?.isSome
  | path _ _ | column _ | query _ | nonempty | member _ | raise => false
  | negative e | positive e | isNull _ e | cast e _ | collate e _ => e.isConstant calls
  | compare a b | same a b => a.isConstant calls && b.isConstant calls
  | between e low high => e.isConstant calls && low.isConstant calls && high.isConstant calls
  | operation es | vector es => allConstant calls es
  | call form order args =>
    calls && !form.windowed && !form.filter && allConstant calls order && allConstant calls args
  | _ => true

/-- Whether all expressions are constant. -/
def allConstant (calls : Bool) : List Expr → Bool
  | [] => true
  | e :: es => e.isConstant calls && allConstant calls es

end

mutual

/-- A constant expression with the truth values that it names settled, whatever columns there are. -/
def settled : Expr → Expr
  | name n => match n.truth? with
    | some b => truth b
    | none => name n
  | negative e => negative e.settled
  | positive e => positive e.settled
  | isNull negated e => isNull negated e.settled
  | cast e t => cast e.settled t
  | collate e c => collate e.settled c
  | compare a b => compare a.settled b.settled
  | same a b => same a.settled b.settled
  | between e low high => between e.settled low.settled high.settled
  | operation es => operation (settledAll es)
  | vector es => vector (settledAll es)
  | e => e

/-- Constant expressions with the truth values that they name settled. -/
def settledAll : List Expr → List Expr
  | [] => []
  | e :: es => e.settled :: settledAll es

end

end Expr
end FirstRow.Sql
