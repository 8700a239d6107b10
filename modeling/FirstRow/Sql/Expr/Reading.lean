import FirstRow.Sql.Window

/-!
# Reading expressions

An expression is an operand and what continues it: operators with further operands. Every operator has a level; one of
a higher level binds more tightly. `exprAt` reads an expression whose own operators have at least a given level, and
leaves the others to those who asked for it.
-/
namespace FirstRow.Sql.Reader

/-- The level of a symbol between operands. -/
def symbolLevel? (s : String) : Option Nat :=
  if ["=", "==", "!=", "<>"].contains s then some 4
  else if ["<", "<=", ">", ">="].contains s then some 5
  else if ["&", "|", "<<", ">>"].contains s then some 7
  else if ["+", "-"].contains s then some 8
  else if ["*", "/", "%"].contains s then some 9
  else if ["||", "->", "->>"].contains s then some 10
  else none

/-- The words that compare a value with a pattern. -/
def matchers : List String := ["like", "glob", "regexp", "match"]

/-- The level of a word between operands or behind one. In front of an operator, `NOT` has a level of its own. -/
def wordLevel? (w : String) : Option Nat :=
  if w == "or" then some 1
  else if w == "and" then some 2
  else if w == "not" then some 3
  else if matchers.contains w || ["is", "in", "between", "isnull", "notnull"].contains w then some 4
  else if w == "collate" then some 11
  else none

/-- The level of an operator that continues an expression. -/
def level? (l : Lexeme) : Option Nat :=
  match l.token with
  | .symbol s => symbolLevel? s
  | .keyword w _ => wordLevel? w
  | _ => none

/-- The level of signs. -/
def signLevel : Nat := 12

/-! ## Operands -/

/-- The literal that a lexeme is. -/
def literal? (l : Lexeme) : Option Expr :=
  match l.token with
  | .integer ds => some (.integer ds)
  | .real t => some (.real t)
  | .string s => some (.string s)
  | .blob c => some (.blob c)
  | .keyword w spelling =>
    if w == "null" then some .null
    else if ["current_date", "current_time", "current_timestamp"].contains w then
      some (.call ⟨spelling, false, false⟩ [] [])
    else none
  | _ => none

/-- A literal. -/
def literal : Reader Term := .leaf <$> take literal?

/-- The greatest number that a parameter can have. -/
def maxParameter : Nat := 32766

/-- Number a parameter, and say what is wrong with its number if anything. A parameter with a name has the number of the
first one with this name; one without gets the next number. -/
def number (ps : Parameters) (text : List UInt8) : Parameters × Option String :=
  let checked (n : Nat) (ps : Parameters) : Parameters × Option String :=
    (ps, if maxParameter < n then some "too many SQL variables" else none)
  match text with
  | [_] => checked (ps.count + 1) { ps with count := ps.count + 1 }
  | 0x3F :: digits =>
    let n := Text.Octet.value digits
    if n = 0 || maxParameter < n then
      (ps, some s!"variable number must be between ?1 and ?{maxParameter}")
    else ({ ps with count := max ps.count n }, none)
  | _ =>
    if ps.names.contains text then (ps, none)
    else checked (ps.count + 1) ⟨ps.count + 1, text :: ps.names⟩

/-- A parameter. A number sign with a number behind it is none. -/
def parameter : Reader Term := do
  let l ← takeThat (·.token = .variable)
  match l.text with
  | 0x23 :: d :: _ =>
    if Text.Octet.isDigit d then
      let text := Text.Utf8.lossyString l.text
      raise s!"near \"{text}\": syntax error"
      return .leaf .variable
    else numbered l.text
  | text => numbered text
where
  /-- A parameter that gets a number. -/
  numbered (text : List UInt8) : Reader Term := do
    let (ps, fault) := number (← get).parameters text
    modify ({ · with parameters := ps })
    raiseIf fault
    return .leaf .variable

/-- What is in parentheses: a query, an expression or a vector. -/
def parentheses (inner : Nested) : Reader Term := do
  symbol "("
  if ← sees beginsQuery then
    let q ← inner.query
    symbol ")"
    holding ⟨.query q.columns, 1, q.height, q.foreign⟩ q.height
  else
    let t ← inner.whole
    if ← seesSymbol "," then
      let ts ← rest inner (← get).size
      symbol ")"
      return vectorOf (t :: ts)
    else
      symbol ")"
      return t
where
  /-- The other values of a vector, at most `n` of them. The last one is not joined to those in front of it. -/
  rest (inner : Nested) : Nat → Reader (List Term)
    | 0 => stop .grammar
    | n + 1 => do
      let h := (← get).height
      symbol ","
      let t ← inner.whole
      if ← seesSymbol "," then
        modify ({ · with height := h })
        return t :: (← rest inner n)
      else return [t]

/-- A cast. -/
def castTerm (inner : Nested) : Reader Term := do
  word "cast"
  symbol "("
  let t ← inner.whole
  word "as"
  let type ← type
  symbol ")"
  return ⟨.cast t.expr type, t.height + 1, 0, t.foreign⟩

/-- Whether a query has rows. -/
def existsTerm (inner : Nested) : Reader Term := do
  word "exists"
  symbol "("
  let q ← if ← sees beginsQuery then inner.query else stop .grammar
  symbol ")"
  holding ⟨.nonempty, 1, 0, q.foreign⟩ q.height

/-- The end of what a trigger does. -/
def raiseTerm : Reader Term := do
  word "raise"
  symbol "("
  if ← takesWord "ignore" then pure ()
  else
    discard (oneOf ["rollback", "abort", "fail"])
    symbol ","
    discard name
  symbol ")"
  return .leaf .raise

/-- A case of a distinction. -/
def branch (inner : Nested) : Reader (List Term) := do
  word "when"
  let a ← inner.whole
  word "then"
  return [a, ← inner.whole]

/-- A distinction of cases. -/
def caseTerm (inner : Nested) : Reader Term := do
  word "case"
  let subject ← optional (!·.isWord "when") inner.whole
  let first ← phrase (branch inner)
  let others ← many (·.isWord "when") (branch inner)
  let otherwise ← optional (·.isWord "else") do
    word "else"
    inner.whole
  word "end"
  let subject := subject.toList
  let branches := first ++ others.flatten ++ otherwise.toList
  let t ← node (.operation (Term.exprs (subject ++ branches))) subject
  holding { t with foreign := Term.firstForeign (subject ++ branches) } (Term.tallest branches)

/-- The arguments of a call: whether only different ones count, what they are ordered by, and they themselves. -/
def arguments (inner : Nested) : Reader (Bool × List Term × List Term) := do
  if ← takesSymbol "*" then return (false, [], [])
  else
    let l ← optional (·.isOneOf ["distinct", "all"]) (oneOf ["distinct", "all"])
    let args ← listOrNothing inner
    let order ←
      if ← takesWord "order" then
        word "by"
        pure ((← keyTerms inner).map KeyTerm.term)
      else pure []
    return (l.any (·.isWord "distinct"), order, args)

/-- A call behind the name of the function, given as it is written and as it is meant. -/
def callTerm (inner : Nested) (written name : List UInt8) : Reader Term := do
  let (distinct, order, args) ← parenthesized (arguments inner)
  let (filter, windowed, foreign) ←
    if ← seesOneOf ["filter", "over"] then phrase (callRange inner) else pure (false, false, none)
  let t ← callOf ⟨name, windowed, filter⟩ written args
  if windowed && distinct then raise "DISTINCT is not supported for window functions"
  let order := if args.isEmpty then [] else order
  if windowed && !order.isEmpty then
    let text := Text.Utf8.lossyString name
    raise s!"ORDER BY may not be used with non-aggregate {text}()"
  return { t with
    expr := .call ⟨name, windowed, filter⟩ (Term.exprs order) (Term.exprs args)
    foreign := (Term.firstForeign (order ++ args)).or foreign }

/-- The name of a column behind one or two other names. -/
def pathTerm (first : List UInt8) : Reader Term := do
  symbol "."
  let second ← name
  if ← takesSymbol "." then
    let third ← name
    return ⟨.path [first, second] third, 3, 0, none⟩
  else return ⟨.path [first] second, 2, 0, none⟩

/-- A string, or the name that it gives to a table. -/
def stringTerm : Reader Term := do
  let l ← nameLexeme
  let s := l.name?.getD []
  if ← seesSymbol "." then pathTerm s else return .leaf (.string s)

/-- The name of a column, or the call of a function. -/
def nameTerm (inner : Nested) : Reader Term := do
  let l ← nameLexeme
  let n := l.name?.getD []
  if ← seesSymbol "." then pathTerm n
  else if ← seesSymbol "(" then callTerm inner l.text n
  else
    let mark := match l.token with
      | .quoted m _ => some m
      | _ => none
    return .leaf (.name ⟨n, mark⟩)

/-- An operand with a sign or a negation in front of it. -/
def signedTerm (inner : Nested) : Reader Term := do
  if ← takesWord "not" then operation [← inner.expr 3 false]
  else if ← takesSymbol "-" then
    let t ← inner.expr signLevel false
    node (.negative t.expr) [t]
  else if ← takesSymbol "+" then
    let t ← inner.expr signLevel false
    node (.positive t.expr) [t]
  else
    symbol "~"
    operation [← inner.expr signLevel false]

/-- Whether a lexeme is a sign or a negation. -/
def isSign (l : Lexeme) : Bool :=
  l.isWord "not" || l.isSymbol "-" || l.isSymbol "+" || l.isSymbol "~"

/-- Whether a lexeme is a string. -/
def isString (l : Lexeme) : Bool :=
  match l.token with
  | .string _ => true
  | _ => false

/-- An operand. -/
def operand (inner : Nested) : Reader Term := phrase do
  if ← sees isString then stringTerm
  else if ← sees fun l => (literal? l).isSome then literal
  else if ← sees (·.token = .variable) then parameter
  else if ← seesSymbol "(" then parentheses inner
  else if ← sees isSign then signedTerm inner
  else if ← seesWord "cast" then castTerm inner
  else if ← seesWord "exists" then existsTerm inner
  else if ← seesWord "raise" then raiseTerm
  else if ← seesWord "case" then caseTerm inner
  else nameTerm inner

/-! ## Operators -/

/-- A pattern behind the word that compares with it. -/
def matched (inner : Nested) (negated : Bool) (matcher : Lexeme) (a : Term) : Reader Term := do
  let pattern ← inner.expr 5 false
  let escape ←
    if ← takesWord "escape" then
      pure [← inner.expr 5 false]
    else pure []
  negatedIf negated (← callOf ⟨matcher.text, false, false⟩ matcher.text (pattern :: a :: escape))

/-- The bounds behind `BETWEEN`. -/
def bounds (inner : Nested) (negated : Bool) (a : Term) : Reader Term := do
  let low ← inner.expr 1 true
  word "and"
  let high ← inner.expr 5 false
  let t ← node (.between a.expr low.expr high.expr) [a]
  negatedIf negated { t with foreign := Term.firstForeign [a, low, high] }

/-- The members behind `IN`. -/
def members (inner : Nested) (negated : Bool) (a : Term) : Reader Term := do
  if ← takesSymbol "(" then
    if ← sees beginsQuery then
      let q ← inner.query
      symbol ")"
      memberOfList.memberOfQuery negated a q.height q.foreign
    else
      let ts ← listOrNothing inner
      symbol ")"
      memberOfList negated a ts
  else
    let first ← name
    let second ← optional (·.isSymbol ".") do
      symbol "."
      name
    let args ← optional (·.isSymbol "(") (parenthesized (listOrNothing inner))
    let database := foreignDatabase? (second.map fun _ => first)
    memberOfList.memberOfQuery negated a 1 (database.or (Term.firstForeign (args.getD [])))

/-- What follows a word that compares and that may be negated. -/
def compared (inner : Nested) (a : Term) : Reader Term := do
  let start ← get
  let negated ← takesWord "not"
  if ← takesWord "null" then node (.isNull true a.expr) [a]
  else
    let l ← oneOf (["between", "in"] ++ matchers)
    modify ({ · with height := start.height + 1 })
    if l.isWord "between" then bounds inner negated a
    else if l.isWord "in" then members inner negated a
    else matched inner negated l a

/-- What follows `IS`. -/
def identified (inner : Nested) (a : Term) : Reader Term := do
  word "is"
  let negated ← takesWord "not"
  let distinct ← takesWord "distinct"
  if distinct then word "from"
  sameTerm (negated != distinct) a (← inner.expr 5 false)

/-- What follows a symbol between operands of a level. -/
def combined (inner : Nested) (level : Nat) (a : Term) : Reader Term := do
  let l ← takeThat fun l => (level? l).isSome
  let b ← inner.expr (level + 1) false
  if level ≤ 5 then node (.compare a.expr b.expr) [a, b]
  else if l.isSymbol "->" || l.isSymbol "->>" then callOf ⟨l.text, false, false⟩ l.text [a, b]
  else operation [a, b]

/-- An expression with the operator behind it, which has a level. -/
def continued (inner : Nested) (l : Lexeme) (level : Nat) (a : Term) : Reader Term :=
  match l.token with
  | .keyword "or" _ => do
    word "or"
    operation [a, ← inner.expr 2 false]
  | .keyword "and" _ => do
    word "and"
    both a (← inner.expr 3 false)
  | .keyword "collate" _ => do
    word "collate"
    return ⟨.collate a.expr (← plainName), 1, 0, a.foreign⟩
  | .keyword "isnull" _ => do
    word "isnull"
    node (.isNull false a.expr) [a]
  | .keyword "notnull" _ => do
    word "notnull"
    node (.isNull true a.expr) [a]
  | .keyword "is" _ => identified inner a
  | .keyword _ _ => compared inner a
  | _ => combined inner level a

/-- What continues an expression with operators of at least a level, at most `n` of them. -/
def continuedFrom (inner : Nested) (least : Nat) (short : Bool) : Nat → Term → Reader Term
  | 0, a => return a
  | n + 1, a => do
    match ← peek with
    | none => return a
    | some l =>
      match level? l with
      | none => return a
      | some level =>
        if level < least || (short && l.isWord "and") then return a
        else
          let b ← joined (continued inner l level a)
          continuedFrom inner least short n b

/-- An expression whose own operators have at least a level. -/
def exprAt (inner : Nested) (least : Nat) (short : Bool) : Reader Term := do
  let a ← operand inner
  continuedFrom inner least short (← get).size a

end FirstRow.Sql.Reader
