import FirstRow.Proofs.Sql.Outline
import FirstRow.Proofs.Sql.Reading
import FirstRow.Sql.Draft

/-!
# Respelled definitions

Two texts of a definition say the same, lexeme by lexeme, if words differ in letter case only and names of columns and
tables in their quotation marks. What a lexeme may be replaced by depends on where it stands: `Spot` says what can be
known of a place from the lexemes in front of it, without reading the definition, and `Respells` compares two lists of
lexemes. Types are compared by what they mean. The second list may also end where an item of the definition ends, which
says that what is read of an item does not depend on what stands behind it.
-/
namespace FirstRow.Sql

open Text.Octet (fold)

/-! ## Lexemes -/

/-- Two tokens are the same up to the letter case of words. -/
inductive Token.Same : Token → Token → Prop where
  | refl (t : Token) : Same t t
  | keyword (k : String) {w w' : List UInt8} : fold w = fold w' → Same (.keyword k w) (.keyword k w')
  | word {w w' : List UInt8} : fold w = fold w' → Same (.word w) (.word w')

namespace Lexeme

/-- Two lexemes are the same up to letter case. What separates them from others does not matter. -/
structure Same (l l' : Lexeme) : Prop where
  token : l.token.Same l'.token
  text : fold l.text = fold l'.text
  parameter : l.token = .variable → l.text = l'.text

theorem Same.refl (l : Lexeme) : l.Same l := ⟨.refl _, rfl, fun _ => rfl⟩

/-- Words that begin something else than a name where an expression can begin. -/
def operandWords : List String := ["cast", "raise", "current_date", "current_time", "current_timestamp"]

/-- The name that a lexeme gives where an expression can begin. -/
def operandName? (l : Lexeme) : Option (List UInt8) :=
  match l.token with
  | .keyword k w => if (reserved ++ operandWords).contains k then none else some w
  | .word w => some w
  | .quoted _ s => some s
  | _ => none

/-- The name that a lexeme gives in a key, where strings are names. -/
def keyName? (l : Lexeme) : Option (List UInt8) :=
  match l.token with
  | .string s => some s
  | _ => l.operandName?

/-- The quotation mark that a name begins with. -/
def mark? (l : Lexeme) : Option UInt8 :=
  match l.token with
  | .quoted m _ => some m
  | _ => none

/-- Whether a lexeme is one of the two bare words that are truth values in expressions. -/
def isTruth (l : Lexeme) : Bool :=
  match l.token with
  | .keyword _ w | .word w => (Name.truth? ⟨w, none⟩).isSome
  | _ => false

/-- Whether the letter case of a word does not matter in a default: it is a literal or a truth value. -/
def isConstantWord (l : Lexeme) : Bool :=
  (Reader.literal? l).isSome || l.isTruth

/-- Whether a lexeme can end an item of a definition, where no parenthesis is open within the item. -/
def endsItem (l : Lexeme) : Bool := l.isSymbol "," || l.isSymbol ")"

end Lexeme

/-! ## Spots -/

/-- What is looked for where a lexeme stands. -/
inductive Mode where
  /-- Nothing that may be written in other quotation marks. -/
  | plain
  /-- What stands behind `IN`. -/
  | members
  /-- The name of the table. -/
  | table
  /-- The name of a column, or the first word of a constraint on the table. -/
  | column
  /-- The name of the table that is referred to. -/
  | reference
  /-- A name in a list of names of columns. -/
  | listed
  | default
  /-- What is done to values when the row changes that they refer to. -/
  | action
  | collation
  | type
  /-- More words of a type. -/
  | typed
  /-- An expression, or a part of one. -/
  | operand
  /-- An expression in parentheses, where also a query could begin. -/
  | opening
  /-- A term of a key. -/
  | key
  /-- A name behind a dot. -/
  | path
deriving DecidableEq

namespace Mode

/-- The name of a table or of a column is looked for, which may be a string. -/
def isName (m : Mode) : Bool := m = table || m = column || m = reference || m = listed

/-- An expression can begin. -/
def isOperand (m : Mode) : Bool := m = operand || m = opening || m = key || m = path

/-- A name is wanted in its letter case. -/
def isExact (m : Mode) : Bool := m.isName || m = default || m = collation

/-- What is looked for behind a name. -/
def behindName : Mode → Mode
  | column => type
  | type | typed => typed
  | _ => plain

/-- Whether a word that is looked for is not a name. -/
def keeps (m : Mode) (w : String) : Bool :=
  Lexeme.reserved.contains w ||
    if m.isName then m = table && w == "if"
    else if m.isOperand then Lexeme.operandWords.contains w || (m = opening && w == "with")
    else true

end Mode

/-- What stands between the parentheses within an item of a definition. -/
inductive Listing where
  | expressions
  | keys
  | names
deriving DecidableEq

/-- What is looked for where an entry of a list begins. -/
def Listing.mode : Listing → Mode
  | expressions => .operand
  | keys => .key
  | names => .listed

/-- A place between two lexemes of a definition. -/
structure Spot where
  /-- How many parentheses are open. -/
  depth : Nat
  /-- What stands, or can stand next, between the parentheses within the item. -/
  listing : Listing
  mode : Mode
deriving DecidableEq

namespace Spot

/-- The spot in front of a definition. -/
def start : Spot := ⟨0, .expressions, .plain⟩

/-- The same place without anything that may be written in other quotation marks. -/
def shut (s : Spot) : Spot := { s with mode := .plain }

/-- The spot behind a symbol. -/
def behindSymbol (s : Spot) (t : String) : Spot :=
  if t = "(" then
    { s with
      depth := s.depth + 1
      mode :=
        if s.depth = 0 then .column
        else if s.depth = 1 then s.listing.mode
        else if s.mode.isOperand || s.mode = .members then .opening
        else .operand }
  else if t = ")" then
    { depth := s.depth - 1, listing := if s.depth ≤ 2 then .expressions else s.listing, mode := .plain }
  else if t = "," then
    if s.depth = 0 then s.shut
    else if s.depth = 1 then ⟨1, .expressions, .column⟩
    else { s with mode := if s.depth = 2 then s.listing.mode else .operand }
  else if s.depth = 0 then { s with mode := if t = "." then .table else .plain }
  else if s.depth = 1 then s.shut
  else { s with mode := if t = "." then .path else .operand }

/-- Words behind which an expression begins. -/
def openers : List String :=
  ["and", "or", "case", "when", "then", "else", "is", "between", "escape", "distinct", "all", "from"]

/-- The spot behind a word that is never a name, outside the items of a definition. -/
def behindOutside (s : Spot) (w : String) : Spot :=
  { s with mode := if w = "table" || w = "exists" then .table else .plain }

/-- The spot behind a word that is never a name, in an item of a definition. -/
def behindClause (s : Spot) (w : String) : Spot :=
  if w = "default" && s.mode ≠ .action then { s with listing := .expressions, mode := .default }
  else if w = "set" then { s with mode := .action }
  else if w = "check" || w = "as" then { s with listing := .expressions, mode := .plain }
  else if w = "primary" || w = "unique" then { s with listing := .keys, mode := .plain }
  else if w = "foreign" then { s with listing := .names, mode := .plain }
  else if w = "references" then { s with listing := .names, mode := .reference }
  else if w = "collate" then { s with mode := .collation }
  else s.shut

/-- The spot behind a word that is never a name, within parentheses. -/
def behindInner (s : Spot) (w : String) : Spot :=
  { s with
    mode :=
      if openers.contains w then .operand
      else if w = "in" then .members
      else if w = "as" then .type
      else if w = "collate" then .collation
      else if w = "not" && s.mode.isOperand then .operand
      else .plain }

/-- The spot behind a word that can be a keyword. -/
def behindWord (s : Spot) (w : String) : Spot :=
  if !Lexeme.reserved.contains w then
    if s.mode = .plain && 2 ≤ s.depth && (w = "by" || Reader.matchers.contains w) then { s with mode := .operand }
    else { s with mode := s.mode.behindName }
  else if s.depth = 0 then s.behindOutside w
  else if s.depth = 1 then s.behindClause w
  else s.behindInner w

/-- The spot behind anything else. -/
def behindOther (s : Spot) : Spot := { s with mode := s.mode.behindName }

/-- The spot behind a lexeme. -/
def behind (s : Spot) (l : Lexeme) : Spot :=
  match l.token with
  | .keyword w _ => s.behindWord w
  | .symbol t => s.behindSymbol t
  | _ => s.behindOther

/-- Words that only queries and calls for windows have. No definition of a table can hold them within its items. -/
def queryWords : List String := ["select", "values", "exists", "over", "filter"]

/-- Words that stand in front of what is no definition of a table with columns. -/
def outsideWords : List String := ["as", "index", "temp", "temporary", "trigger", "unique", "view", "virtual"]

/-- Whether a lexeme can stand at a spot of a definition, which is that of a table with columns and holds no query, no
call for a window and no `RAISE`. -/
def permits (s : Spot) (l : Lexeme) : Bool :=
  if s.depth = 0 then !l.isOneOf outsideWords
  else s.depth = 1 ||
    (!l.isOneOf queryWords && !(s.mode.isOperand && s.mode ≠ .path && l.isWord "raise") &&
      !(s.mode = .opening && l.isWord "with"))

end Spot

/-! ## Respellings -/

/-- What respellings may do: the columns whose names may be written in other quotation marks in expressions, and where
the second text may end with an item. -/
structure Licence where
  names : List (List UInt8)
  /-- What stands behind the item in the first text, if the second text ends with it. -/
  rest : Option (List Lexeme)

/-- Whether the second text ends with an item. -/
def Licence.ends (κ : Licence) : Bool := κ.rest.isSome

theorem Licence.ends_of_rest {κ : Licence} {ls : List Lexeme} (h : κ.rest = some ls) : κ.ends = true := by
  rw [ends, h]
  rfl

variable (κ : Licence)

/-- A lexeme may be replaced by another one at a spot, in front of a next one. -/
inductive Pair (s : Spot) (l l' : Lexeme) (next : Option Lexeme) : Prop where
  | same : l.Same l' →
      (s.mode.isExact = true → l.name? = l'.name? ∨ s.mode = .default ∧ l.isConstantWord = true) → Pair s l l' next
  /-- A name is written in other quotation marks. -/
  | name : s.mode.isName = true → l.name?.isSome = true → l.name? = l'.name? →
      (s.mode = .table → l.isWord "if" = false ∧ l'.isWord "if" = false) → Pair s l l' next
  /-- In an expression that is the name of a column, or one with a dot in front of it or behind it. -/
  | operand (n : List UInt8) : s.mode.isOperand = true → l.operandName? = some n → l'.operandName? = some n →
      ((s.mode = .path ∨ next.any (·.isSymbol ".") = true) ∨
        isAmong κ.names n = true ∧ l.isTruth = false ∧ l'.isTruth = false) →
      (s.mode = .opening → l.isWord "with" = false ∧ l'.isWord "with" = false) → Pair s l l' next
  /-- As a term of a key by itself the name of a column may be a string. -/
  | key (n : List UInt8) : s.mode = .key → l.keyName? = some n → l'.keyName? = some n → isAmong κ.names n = true →
      l.isTruth = false → l'.isTruth = false →
      next.all (fun x => !x.isSymbol "." && !x.isSymbol "(" && (Reader.level? x).isNone) = true → Pair s l l' next

/-- The lexemes of a type that come next: words, and perhaps numbers in parentheses. -/
def typeAhead (ls : List Lexeme) : List Lexeme :=
  let words := ls.takeWhile (·.plainName?.isSome)
  let behind := ls.drop words.length
  if words.isEmpty then []
  else if behind.head?.any (·.isSymbol "(") then
    words ++ behind.take ((behind.takeWhile (!·.isSymbol ")")).length + 1)
  else words

/-- The text of the type that comes next. -/
def typeText (ls : List Lexeme) : List UInt8 := Lexeme.stretch (typeAhead ls)

/-- What a type means, apart from how it is written. -/
def ColumnType.outline (t : ColumnType) : ColumnType := { t with text := [] }

/-- The types that come next mean the same: as those of columns at the outermost level, and as those of casts within
parentheses. -/
def TypesAgree (s : Spot) (ls ls' : List Lexeme) : Prop :=
  if s.depth ≤ 1 then (ColumnType.ofText (typeText ls)).outline = (ColumnType.ofText (typeText ls')).outline
  else castAffinity (typeText ls) = castAffinity (typeText ls')

/-- The second list of lexemes says the same as the first one, from a spot on. -/
inductive Respells : Spot → List Lexeme → List Lexeme → Prop where
  | nil {s : Spot} : Respells s [] []
  | cut {s : Spot} {l : Lexeme} {ls : List Lexeme} : κ.rest = some (l :: ls) → s.depth = 1 → l.endsItem = true →
      Respells s (l :: ls) []
  | cons {s : Spot} {l l' : Lexeme} {ls ls' : List Lexeme} : s.permits l = true → Pair κ s l l' ls.head? →
      (s.mode = .type → TypesAgree s (l :: ls) (l' :: ls')) → Respells (s.behind l) ls ls' →
      (κ.ends = true → s.depth = 1 → l.endsItem = false) → Respells s (l :: ls) (l' :: ls')

end FirstRow.Sql

namespace FirstRow.Sql

open Text.Octet (fold)

/-! ## What lexemes have in common -/

namespace Lexeme

variable {l l' : Lexeme}

theorem isOneOf_eq_any (l : Lexeme) (ws : List String) : l.isOneOf ws = ws.any l.isWord := by
  unfold isOneOf isWord
  cases l.token with
  | keyword k w =>
    rw [Bool.eq_iff_iff]
    simp
  | _ => simp

theorem isWord_of_isOneOf {ws : List String} (h : l.isOneOf ws = true) : ∃ w ∈ ws, l.isWord w = true := by
  rwa [isOneOf_eq_any, List.any_eq_true] at h

namespace Same

theorem token_cases (h : l.Same l') :
    l'.token = l.token ∨
      (∃ k w w', l.token = .keyword k w ∧ l'.token = .keyword k w' ∧ fold w = fold w') ∨
      ∃ w w', l.token = .word w ∧ l'.token = .word w' ∧ fold w = fold w' := by
  obtain ⟨htoken, -, -⟩ := h
  generalize l.token = t at htoken
  generalize l'.token = t' at htoken
  cases htoken with
  | refl => exact .inl rfl
  | keyword k hfold => exact .inr (.inl ⟨k, _, _, rfl, rfl, hfold⟩)
  | word hfold => exact .inr (.inr ⟨_, _, rfl, rfl, hfold⟩)

theorem isWord (h : l.Same l') (w : String) : l.isWord w = l'.isWord w := by
  rcases h.token_cases with h | ⟨k, w, w', h, h', -⟩ | ⟨w, w', h, h', -⟩ <;> simp [Lexeme.isWord, *]

theorem isOneOf (h : l.Same l') (ws : List String) : l.isOneOf ws = l'.isOneOf ws := by
  rw [isOneOf_eq_any, isOneOf_eq_any, funext h.isWord]

theorem isSymbol (h : l.Same l') (t : String) : l.isSymbol t = l'.isSymbol t := by
  rcases h.token_cases with h | ⟨k, w, w', h, h', -⟩ | ⟨w, w', h, h', -⟩ <;> simp [Lexeme.isSymbol, *]

theorem isString (h : l.Same l') : Reader.isString l = Reader.isString l' := by
  rcases h.token_cases with h | ⟨k, w, w', h, h', -⟩ | ⟨w, w', h, h', -⟩ <;> simp [Reader.isString, *]

theorem isVariable (h : l.Same l') : l.token = .variable ↔ l'.token = .variable := by
  rcases h.token_cases with h | ⟨k, w, w', h, h', -⟩ | ⟨w, w', h, h', -⟩ <;> simp [*]

theorem level? (h : l.Same l') : Reader.level? l = Reader.level? l' := by
  rcases h.token_cases with h | ⟨k, w, w', h, h', -⟩ | ⟨w, w', h, h', -⟩ <;> simp [Reader.level?, *]

/-- Names are the same up to letter case. -/
theorem name? (h : l.Same l') : l.name?.map fold = l'.name?.map fold := by
  rcases h.token_cases with h | ⟨k, w, w', h, h', hfold⟩ | ⟨w, w', h, h', hfold⟩
  · simp only [Lexeme.name?, h]
  · simp only [Lexeme.name?, h, h']
    split <;> simp [hfold]
  · simp [Lexeme.name?, h, h', hfold]

theorem name?_isSome (h : l.Same l') : l.name?.isSome = l'.name?.isSome := by
  have := congrArg Option.isSome h.name?
  simpa using this

theorem plainName? (h : l.Same l') : l.plainName?.map fold = l'.plainName?.map fold := by
  unfold Lexeme.plainName?
  rw [h.isOneOf]
  split
  · rfl
  · exact h.name?

theorem plainName?_isSome (h : l.Same l') : l.plainName?.isSome = l'.plainName?.isSome := by
  have := congrArg Option.isSome h.plainName?
  simpa using this

/-- Literals are the same up to the letter case of words. -/
theorem literal? (h : l.Same l') (names : List (List UInt8)) :
    (Reader.literal? l).map (Expr.outline names) = (Reader.literal? l').map (Expr.outline names) := by
  rcases h.token_cases with h | ⟨k, w, w', h, h', hfold⟩ | ⟨w, w', h, h', -⟩
  · simp only [Reader.literal?, h]
  · simp only [Reader.literal?, h, h']
    split
    · rfl
    · split
      · simp [Expr.outline, CallForm.outline, hfold]
      · rfl
  · simp only [Reader.literal?, h, h']

theorem literal?_isSome (h : l.Same l') : (Reader.literal? l).isSome = (Reader.literal? l').isSome := by
  have := congrArg Option.isSome (h.literal? [])
  simpa using this

theorem isIdentifier (h : l.Same l') : Reader.isIdentifier l = Reader.isIdentifier l' := by
  rw [Reader.isIdentifier, Reader.isIdentifier, h.name?_isSome, h.isString, h.isOneOf]

theorem endsItem (h : l.Same l') : l.endsItem = l'.endsItem := by
  rw [Lexeme.endsItem, Lexeme.endsItem, h.isSymbol, h.isSymbol]

end Same

/-- What a lexeme is that gives a name where an expression can begin. -/
theorem token_of_operandName? {n : List UInt8} (h : l.operandName? = some n) :
    (∃ k, l.token = .keyword k n ∧ k ∉ reserved ∧ k ∉ operandWords) ∨ l.token = .word n ∨ ∃ m, l.token = .quoted m n := by
  unfold operandName? at h
  split at h
  · next k w htoken =>
    split at h
    · cases h
    · next hk =>
      cases h
      simp only [List.contains_append, List.contains_iff_mem, Bool.or_eq_true, not_or] at hk
      exact .inl ⟨k, htoken, hk.1, hk.2⟩
  · next w htoken =>
    cases h
    exact .inr (.inl htoken)
  · next m s htoken =>
    cases h
    exact .inr (.inr ⟨m, htoken⟩)
  · cases h

theorem name?_of_operandName? {n : List UInt8} (h : l.operandName? = some n) : l.name? = some n := by
  rcases token_of_operandName? h with ⟨k, htoken, hk, -⟩ | htoken | ⟨m, htoken⟩ <;> simp [Lexeme.name?, *]

theorem isWord_of_operandName? {n : List UInt8} (h : l.operandName? = some n) {w : String}
    (hw : w ∈ reserved ∨ w ∈ operandWords) : l.isWord w = false := by
  rcases token_of_operandName? h with ⟨k, htoken, hk, hk'⟩ | htoken | ⟨m, htoken⟩ <;> simp only [isWord, htoken]
  rw [beq_eq_false_iff_ne]
  rintro rfl
  exact hw.elim hk hk'

theorem isSymbol_of_name? {n : List UInt8} (h : l.name? = some n) (t : String) : l.isSymbol t = false := by
  unfold Lexeme.name? at h
  unfold isSymbol
  split at h <;> simp_all

theorem isWord_of_name? {n : List UInt8} (h : l.name? = some n) {w : String} (hw : w ∈ reserved) :
    l.isWord w = false := by
  unfold Lexeme.name? at h
  unfold isWord
  split at h
  · next k spelling htoken =>
    simp only [htoken]
    split at h
    · cases h
    · next hk =>
      rw [beq_eq_false_iff_ne]
      rintro rfl
      exact hk (List.contains_iff_mem.mpr hw)
  all_goals simp_all

theorem not_isVariable_of_name? {n : List UInt8} (h : l.name? = some n) : l.token ≠ .variable := by
  unfold Lexeme.name? at h
  split at h <;> simp_all

theorem isString_of_operandName? {n : List UInt8} (h : l.operandName? = some n) : Reader.isString l = false := by
  rcases token_of_operandName? h with ⟨k, htoken, hk, -⟩ | htoken | ⟨m, htoken⟩ <;> simp [Reader.isString, htoken]

theorem literal?_of_operandName? {n : List UInt8} (h : l.operandName? = some n) : Reader.literal? l = none := by
  rcases token_of_operandName? h with ⟨k, htoken, hk, hk'⟩ | htoken | ⟨m, htoken⟩ <;> simp only [Reader.literal?, htoken]
  rw [if_neg, if_neg]
  · intro hliteral
    refine hk' ?_
    simp only [List.contains_iff_mem] at hliteral
    exact List.mem_of_mem_drop (i := 2) hliteral
  · intro hnull
    rw [beq_iff_eq] at hnull
    subst hnull
    exact hk (by decide)

/-- A lexeme that gives a name in a key gives it as a name of anything. -/
theorem name?_of_keyName? {n : List UInt8} (h : l.keyName? = some n) : l.name? = some n := by
  unfold keyName? at h
  split at h
  · next htoken =>
    cases h
    simp [Lexeme.name?, htoken]
  · exact name?_of_operandName? h

theorem isWord_of_keyName? {n : List UInt8} (h : l.keyName? = some n) {w : String}
    (hw : w ∈ reserved ∨ w ∈ operandWords) : l.isWord w = false := by
  unfold keyName? at h
  split at h
  · next htoken => simp [isWord, htoken]
  · exact isWord_of_operandName? h hw

end Lexeme

/-! ## What a lexeme and its replacement have in common -/

namespace Mode

theorem isName_of_isOperand {m : Mode} (h : m.isOperand = true) : m.isName = false := by
  cases m <;> simp_all [isOperand, isName]

theorem isOperand_of_isName {m : Mode} (h : m.isName = true) : m.isOperand = false := by
  cases m <;> simp_all [isOperand, isName]

end Mode

namespace Pair

variable {κ} {s : Spot} {l l' : Lexeme} {next : Option Lexeme}

theorem isSymbol (h : Pair κ s l l' next) (t : String) : l.isSymbol t = l'.isSymbol t := by
  cases h with
  | same hsame => exact hsame.isSymbol t
  | name _ hsome heq =>
    obtain ⟨n, hn⟩ := Option.isSome_iff_exists.mp hsome
    rw [Lexeme.isSymbol_of_name? hn, Lexeme.isSymbol_of_name? (heq ▸ hn)]
  | operand n _ hn hn' =>
    rw [Lexeme.isSymbol_of_name? (Lexeme.name?_of_operandName? hn),
      Lexeme.isSymbol_of_name? (Lexeme.name?_of_operandName? hn')]
  | key n _ hn hn' =>
    rw [Lexeme.isSymbol_of_name? (Lexeme.name?_of_keyName? hn), Lexeme.isSymbol_of_name? (Lexeme.name?_of_keyName? hn')]

theorem endsItem (h : Pair κ s l l' next) : l.endsItem = l'.endsItem := by
  rw [Lexeme.endsItem, Lexeme.endsItem, h.isSymbol, h.isSymbol]

theorem name?_isSome (h : Pair κ s l l' next) : l.name?.isSome = l'.name?.isSome := by
  cases h with
  | same hsame => exact hsame.name?_isSome
  | name _ hsome heq => rw [heq]
  | operand n _ hn hn' => rw [Lexeme.name?_of_operandName? hn, Lexeme.name?_of_operandName? hn']
  | key n _ hn hn' => rw [Lexeme.name?_of_keyName? hn, Lexeme.name?_of_keyName? hn']

theorem isVariable (h : Pair κ s l l' next) : l.token = .variable ↔ l'.token = .variable := by
  have hneither {n n' : List UInt8} (hn : l.name? = some n) (hn' : l'.name? = some n') :
      l.token = .variable ↔ l'.token = .variable :=
    iff_of_false (Lexeme.not_isVariable_of_name? hn) (Lexeme.not_isVariable_of_name? hn')
  cases h with
  | same hsame => exact hsame.isVariable
  | name _ hsome heq =>
    obtain ⟨n, hn⟩ := Option.isSome_iff_exists.mp hsome
    exact hneither hn (heq ▸ hn)
  | operand n _ hn hn' => exact hneither (Lexeme.name?_of_operandName? hn) (Lexeme.name?_of_operandName? hn')
  | key n _ hn hn' => exact hneither (Lexeme.name?_of_keyName? hn) (Lexeme.name?_of_keyName? hn')

/-- Where a word is looked for, lexemes are the same, or neither of them is this word. -/
theorem same_or_not_isWord (h : Pair κ s l l' next) {w : String} (hw : s.mode.keeps w = true) :
    l.Same l' ∨ l.isWord w = false ∧ l'.isWord w = false := by
  rw [Mode.keeps, Bool.or_eq_true, List.contains_iff_mem] at hw
  cases h with
  | same hsame => exact .inl hsame
  | name hmode hsome heq hif =>
    obtain ⟨n, hn⟩ := Option.isSome_iff_exists.mp hsome
    rw [if_pos hmode, Bool.and_eq_true, decide_eq_true_eq, beq_iff_eq] at hw
    rcases hw with hw | ⟨htable, rfl⟩
    · exact .inr ⟨Lexeme.isWord_of_name? hn hw, Lexeme.isWord_of_name? (heq ▸ hn) hw⟩
    · exact .inr (hif htable)
  | operand n hmode hn hn' _ hwith =>
    rw [if_neg (by simp [Mode.isName_of_isOperand hmode]), if_pos hmode, Bool.or_eq_true, List.contains_iff_mem,
      Bool.and_eq_true, decide_eq_true_eq, beq_iff_eq] at hw
    rcases hw with hw | hw | ⟨hopening, rfl⟩
    · exact .inr ⟨Lexeme.isWord_of_operandName? hn (.inl hw), Lexeme.isWord_of_operandName? hn' (.inl hw)⟩
    · exact .inr ⟨Lexeme.isWord_of_operandName? hn (.inr hw), Lexeme.isWord_of_operandName? hn' (.inr hw)⟩
    · exact .inr (hwith hopening)
  | key n hmode hn hn' =>
    have hw : w ∈ Lexeme.reserved ∨ w ∈ Lexeme.operandWords := by simpa [hmode, Mode.isName, Mode.isOperand] using hw
    exact .inr ⟨Lexeme.isWord_of_keyName? hn hw, Lexeme.isWord_of_keyName? hn' hw⟩

/-- No word that is looked for is taken for a name, or given up for one. -/
theorem isWord (h : Pair κ s l l' next) {w : String} (hw : s.mode.keeps w = true) : l.isWord w = l'.isWord w := by
  rcases h.same_or_not_isWord hw with hsame | ⟨hl, hl'⟩
  · exact hsame.isWord w
  · rw [hl, hl']

theorem isOneOf (h : Pair κ s l l' next) {ws : List String} (hws : ws.all s.mode.keeps = true) :
    l.isOneOf ws = l'.isOneOf ws := by
  rw [Lexeme.isOneOf_eq_any, Lexeme.isOneOf_eq_any, Bool.eq_iff_iff, List.any_eq_true, List.any_eq_true]
  refine exists_congr fun w => and_congr_right fun hmem => ?_
  rw [h.isWord (List.all_eq_true.mp hws w hmem)]

/-- A word that is looked for changes its letter case only. -/
theorem same_of_isWord (h : Pair κ s l l' next) {w : String} (hw : s.mode.keeps w = true) (hl : l.isWord w = true) :
    l.Same l' := by
  rcases h.same_or_not_isWord hw with hsame | ⟨hnot, -⟩
  · exact hsame
  · simp [hl] at hnot

/-- Where neither a name nor an expression is looked for, nothing but the letter case changes. -/
theorem toSame (h : Pair κ s l l' next) (hname : s.mode.isName = false) (hoperand : s.mode.isOperand = false) :
    l.Same l' := by
  cases h with
  | same hsame => exact hsame
  | name hmode => simp [hname] at hmode
  | operand n hmode => simp [hoperand] at hmode
  | key n hmode => simp [hmode, Mode.isOperand] at hoperand

/-- A name that is looked for keeps its letter case, and changes its quotation marks only. -/
theorem name?_eq (h : Pair κ s l l' next) (hs : s.mode.isName = true) : l.name? = l'.name? := by
  cases h with
  | same _ hexact =>
    have hexact := hexact (by rw [Mode.isExact, hs]; rfl)
    exact hexact.resolve_right fun h => by simp [h.1, Mode.isName] at hs
  | name _ _ heq => exact heq
  | operand _ hmode => simp [Mode.isOperand_of_isName hs] at hmode
  | key _ hmode => simp [hmode, Mode.isName] at hs

end Pair

/-! ## Spots behind lexemes -/

namespace Spot

variable {s : Spot} {l : Lexeme}

theorem behind_of_isSymbol {t : String} (h : l.isSymbol t = true) : s.behind l = s.behindSymbol t := by
  unfold Lexeme.isSymbol at h
  unfold behind
  split at h
  · next htoken =>
    rw [beq_iff_eq] at h
    rw [htoken, h]
  · cases h

theorem behind_of_isWord {w : String} (h : l.isWord w = true) : s.behind l = s.behindWord w := by
  unfold Lexeme.isWord at h
  unfold behind
  split at h
  · next htoken =>
    rw [beq_iff_eq] at h
    rw [htoken, h]
  · cases h

/-- Behind a name nothing depends on what it is, except that some names are operators where no name is looked for. -/
theorem behind_of_name? (h : l.name?.isSome = true) (hs : s.mode ≠ .plain ∨ s.depth ≤ 1) :
    s.behind l = { s with mode := s.mode.behindName } := by
  unfold Lexeme.name? at h
  unfold behind
  split at h
  · next k w htoken =>
    rw [htoken]
    split at h
    · cases h
    · next hk =>
      simp only [behindWord, hk, Bool.not_false, if_true]
      rw [if_neg]
      simp only [Bool.and_eq_true, decide_eq_true_eq]
      rintro ⟨⟨hmode, hdepth⟩, -⟩
      exact hs.elim (absurd hmode) (by omega)
  all_goals simp_all [behindOther]

end Spot

end FirstRow.Sql
