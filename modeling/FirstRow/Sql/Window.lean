import FirstRow.Sql.Nested

/-!
# Windows

A window says over which rows of a result a function ranges: how they are parted and ordered, and which of them are in
the frame. It can start from another window by its name.
-/
namespace FirstRow.Sql

/-- A window that was read. -/
structure Window where
  /-- The window that it starts from, as it is written. -/
  base : Option (List UInt8)
  partition : List Term
  order : List Term
  /-- It says nothing of a frame. -/
  frameless : Bool

namespace Window

/-- The first foreign database that is named in a window. -/
def foreign (w : Window) : Option (List UInt8) :=
  (Term.firstForeign w.order).or (Term.firstForeign w.partition)

end Window

/-- An end of a frame. -/
inductive FrameBound where
  | unbounded
  | preceding
  | current
  | following
deriving DecidableEq

namespace Reader

/-- An end of a frame. `beyond` is the word behind `UNBOUNDED`. -/
def frameBound (inner : Nested) (beyond : String) : Reader FrameBound := phrase do
  if ← takesWord "unbounded" then
    word beyond
    return .unbounded
  else if ← takesWord "current" then
    word "row"
    return .current
  else
    discard inner.whole
    let l ← oneOf ["preceding", "following"]
    return if l.isWord "preceding" then .preceding else .following

/-- Which rows of a frame are left out. -/
def frameExclusion : Reader Unit := discard <| optional (·.isWord "exclude") do
  word "exclude"
  phrase do
    if ← takesWord "no" then word "others"
    else if ← takesWord "current" then word "row"
    else discard (oneOf ["group", "ties"])

/-- A frame. It cannot end before it starts. -/
def frame (inner : Nested) : Reader Unit := do
  discard (oneOf ["range", "rows", "groups"])
  let (start, finish) ←
    if ← takesWord "between" then
      let start ← frameBound inner "preceding"
      word "and"
      pure (start, ← frameBound inner "following")
    else pure (← frameBound inner "preceding", .current)
  frameExclusion
  let backwards :=
    (start = .current && finish = .preceding) ||
      (start = .following && (finish = .preceding || finish = .current))
  if backwards then raise "unsupported frame specification"

/-- Words with which a window does not start from another one. -/
def windowWords : List String := ["partition", "order", "range", "rows", "groups"]

/-- A window behind what it says of parts and order. -/
def windowRest (inner : Nested) (base : Option (List UInt8)) (partition order : List Term) : Reader Window := do
  let f ← optional (·.isOneOf ["range", "rows", "groups"]) (frame inner)
  return ⟨base, partition, order, f.isNone⟩

/-- A window. -/
def window (inner : Nested) : Reader Window := do
  let base ←
    if ← sees fun l => l.name?.isSome && !l.isOneOf windowWords then pure (some (← nameLexeme).text) else pure none
  if ← takesWord "partition" then
    word "by"
    let ts ← inner.list
    windowRest inner base ts (← orderBy inner)
  else if ← takesWord "order" then
    word "by"
    windowRest inner base [] ((← keyTerms inner).map KeyTerm.term)
  else windowRest inner base [] []

/-- A window in parentheses. -/
def windowBody (inner : Nested) : Reader Window :=
  parenthesized (phrase (window inner))

/-- Over which rows a call ranges: whether it is said which rows it takes and over which it ranges, and the first foreign
database that is named there. -/
def callRange (inner : Nested) : Reader (Bool × Bool × Option (List UInt8)) := do
  let filter ←
    if ← seesWord "filter" then
      some <$> phrase do
        word "filter"
        parenthesized do
          word "where"
          inner.whole
    else pure none
  let seen := filter.bind Term.foreign
  if ← takesWord "over" then
    if ← seesSymbol "(" then
      let w ← windowBody inner
      return (filter.isSome, true, w.foreign.or seen)
    else
      discard name
      return (filter.isSome, true, seen)
  else return (filter.isSome, false, seen)

/-- The window of a name among others. -/
def findWindow (name : List UInt8) (ws : List (List UInt8 × Window)) : Option Window :=
  (ws.find? fun w => Text.Octet.same w.1 name).map Prod.snd

/-- A window that starts from another one, which takes over the parts and the order of that one. The newest of the
others stand first. -/
def chainWindow (others : List (List UInt8 × Window)) (w : Window) : Reader Window := do
  match w.base with
  | none => return w
  | some base =>
    let text := Text.Utf8.lossyString base
    match findWindow base others with
    | none =>
      raise s!"no such window: {text}"
      return w
    | some b =>
      let fault :=
        if !w.partition.isEmpty then some "PARTITION clause"
        else if !b.order.isEmpty && !w.order.isEmpty then some "ORDER BY clause"
        else if !b.frameless then some "frame specification"
        else none
      match fault with
      | some what =>
        raise s!"cannot override {what} of window: {text}"
        return w
      | none =>
        return { w with base := none, partition := b.partition, order := if b.order.isEmpty then w.order else b.order }

/-- A named window. -/
def namedWindow (inner : Nested) : Reader (List UInt8 × Window) := do
  let l ← nameLexeme
  word "as"
  return (l.text, ← windowBody inner)

/-- More named windows behind others, of which the newest stands first; at most `n` of them. -/
def namedWindowsFrom (inner : Nested) : Nat → List (List UInt8 × Window) → Reader (List (List UInt8 × Window))
  | 0, ws => return ws
  | n + 1, ws => do
    if ← seesSymbol "," then
      let w ← joined do
        symbol ","
        let (name, w) ← phrase (namedWindow inner)
        return (name, ← chainWindow ws w)
      namedWindowsFrom inner n (w :: ws)
    else return ws

/-- Named windows; the last one comes first. The first one that is defined is taken as it stands. -/
def namedWindows (inner : Nested) : Reader (List (List UInt8 × Window)) := do
  word "window"
  let w ← phrase (namedWindow inner)
  namedWindowsFrom inner (← get).size [w]

end Reader
end FirstRow.Sql
