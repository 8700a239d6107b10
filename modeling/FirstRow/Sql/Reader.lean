import FirstRow.Sql.Lexeme

/-!
# Reading lexemes

A reader takes lexemes from the front of a list, or stops in front of one. It keeps a stack of what was read and is not
yet part of something larger: every lexeme adds one to its height, and a phrase that is complete counts as one again.
Something that is left out counts as well. The height is bounded, so texts can only be nested so deep.

A fault that is found while reading does not stop the reader at once: the next lexeme is looked at first, and if it
cannot stand where it does, that counts more.
-/
namespace FirstRow.Sql

/-- Why a reader stops. -/
inductive StopReason where
  /-- The next lexeme cannot stand here. -/
  | grammar
  /-- Too much was begun and not completed. -/
  | depth
  /-- Something that was read makes no sense. -/
  | fault (text : String)
  /-- An index comes by a name that another one has. -/
  | nameTaken

/-- Why a reader stops, and the next lexeme. -/
structure Stop where
  reason : StopReason
  next : Option Lexeme

/-- The parameters in a text: the greatest number that one has, and the names given to them. -/
structure Parameters where
  count : Nat
  names : List (List UInt8)

/-- What a reader keeps. -/
structure Cursor where
  ahead : List Lexeme
  /-- How many lexemes were taken. -/
  place : Nat
  /-- How many lexemes there are in all. -/
  size : Nat
  height : Nat
  /-- The last fault that was found. -/
  fault : Option String
  parameters : Parameters

/-- Takes lexemes from the front of a list, or stops. -/
abbrev Reader := StateT Cursor (Except Stop)

/-- Reading begins. -/
def Cursor.start (ls : List Lexeme) : Cursor :=
  ⟨ls, 0, ls.length, 0, none, ⟨0, []⟩⟩

/-- Where a reader is when it stops. -/
def Cursor.stop (c : Cursor) (reason : StopReason) : Stop :=
  ⟨reason, c.ahead.head?⟩

namespace Reader

variable {α β : Type}

/-- The greatest height of the stack. -/
def maxHeight : Nat := 99

/-- Stop in front of the next lexeme. -/
def stop (reason : StopReason) : Reader α := fun c =>
  .error (c.stop reason)

/-- Take a lexeme for which `f` gives a value. -/
def take (f : Lexeme → Option α) : Reader α := fun c =>
  match c.ahead with
  | [] => .error (c.stop .grammar)
  | l :: rest =>
    match f l with
    | none => .error (c.stop .grammar)
    | some a =>
      if maxHeight ≤ c.height then .error (c.stop .depth)
      else match c.fault with
        | some m => .error (c.stop (.fault m))
        | none => .ok (a, { c with ahead := rest, place := c.place + 1, height := c.height + 1 })

/-- The next lexeme, which is not taken. -/
def peek : Reader (Option Lexeme) := return (← get).ahead.head?

/-- Whether the next lexeme has a property. -/
def sees (p : Lexeme → Bool) : Reader Bool := return (← get).ahead.head?.any p

/-- Whether a keyword comes next. -/
def seesWord (w : String) : Reader Bool := sees (·.isWord w)

/-- Whether one of several keywords comes next. -/
def seesOneOf (ws : List String) : Reader Bool := sees (·.isOneOf ws)

/-- Whether a symbol comes next. -/
def seesSymbol (s : String) : Reader Bool := sees (·.isSymbol s)

/-- Take a lexeme with a property. -/
def takeThat (p : Lexeme → Bool) : Reader Lexeme := take fun l => if p l then some l else none

/-- Take a keyword. -/
def word (w : String) : Reader Unit := discard (takeThat (·.isWord w))

/-- Take one of several keywords. -/
def oneOf (ws : List String) : Reader Lexeme := takeThat (·.isOneOf ws)

/-- Take keywords that follow each other. -/
def words (ws : List String) : Reader Unit := ws.forM word

/-- Take a symbol. -/
def symbol (s : String) : Reader Unit := discard (takeThat (·.isSymbol s))

/-- Take a lexeme with a property if it comes next, and say whether it did. -/
def takes (p : Lexeme → Bool) : Reader Bool := do
  if ← sees p then
    discard (takeThat p)
    return true
  else return false

/-- Take a keyword if it comes next. -/
def takesWord (w : String) : Reader Bool := takes (·.isWord w)

/-- Take a symbol if it comes next. -/
def takesSymbol (s : String) : Reader Bool := takes (·.isSymbol s)

/-- Take a name. -/
def name : Reader (List UInt8) := take Lexeme.name?

/-- Take a name, with its lexeme. -/
def nameLexeme : Reader Lexeme := takeThat (·.name?.isSome)

/-- Take a name that is not a word of joins. -/
def plainName : Reader (List UInt8) := take Lexeme.plainName?

/-- Something that is left out. -/
def vacant : Reader Unit := fun c =>
  if maxHeight ≤ c.height then .error (c.stop .depth) else .ok ((), { c with height := c.height + 1 })

/-- Read something whose parts count as one when it is complete. -/
def phrase (r : Reader α) : Reader α := do
  let h := (← get).height
  let a ← r
  modify ({ · with height := h + 1 })
  return a

/-- Read something that becomes a part of what was read last. -/
def joined (r : Reader α) : Reader α := do
  let h := (← get).height
  let a ← r
  modify ({ · with height := h })
  return a

/-- Read something if the next lexeme has a property; otherwise it is left out. -/
def optional (p : Lexeme → Bool) (r : Reader α) : Reader (Option α) := do
  if ← sees p then return some (← phrase r)
  else
    vacant
    return none

/-- Something makes no sense. -/
def raise (text : String) : Reader Unit := modify ({ · with fault := some text })

/-- Something makes no sense if there is a text that says why. -/
def raiseIf (text? : Option String) : Reader Unit := text?.forM raise

/-- Read things that become parts of what was read before, as long as `follows` holds, at most `n` of them. -/
def loop (follows : Lexeme → Bool) (r : Reader α) : Nat → Reader (List α)
  | 0 => return []
  | n + 1 => do
    if ← sees follows then
      let a ← joined r
      return a :: (← loop follows r n)
    else return []

/-- Read things that become parts of what was read before, as long as `follows` holds. -/
def many (follows : Lexeme → Bool) (r : Reader α) : Reader (List α) := do
  loop follows r (← get).size

/-- Read things with commas between them. -/
def separated (r : Reader α) : Reader (List α) := do
  let a ← phrase r
  let as ← many (·.isSymbol ",") do
    symbol ","
    r
  return a :: as

/-- Read something in parentheses. -/
def parenthesized (r : Reader α) : Reader α := do
  symbol "("
  let a ← r
  symbol ")"
  return a

end Reader
end FirstRow.Sql
