import FirstRow.Binary64.Rounding
import FirstRow.Json.Writer

/-!
# A JSON reader

An ordinary reader of JSON text, against which the writer is checked. It skips white space, decodes every escape and
every surrogate pair, rounds a number with a point or an exponent to the nearest binary64 number, and keeps any other
number as an integer. Every part of it gives back what follows the text it has read; arrays and objects are read with
a bound on their depth and on their length, and the length of the text is always enough.
-/
namespace FirstRow.Json

def isBlank (c : Char) : Bool :=
  c == ' ' || c == '\t' || c == '\n' || c == '\r'

def skipBlank (s : List Char) : List Char :=
  s.dropWhile isBlank

/-! ## Numbers -/

/-- A number as it is written: its sign, the digits before and behind the point, and the exponent. Without a point
there are no digits behind it. -/
structure Numeral where
  negative : Bool
  whole : List Char
  fraction : List Char
  power : Option Int

/-- The digits without the point. -/
def Numeral.mantissa (n : Numeral) : Nat :=
  Decimal.value (n.whole ++ n.fraction)

/-- The power of ten that scales the digits. -/
def Numeral.scale (n : Numeral) : Int :=
  n.power.getD 0 - n.fraction.length

/-- What a number means: an integer exactly if it has neither point nor exponent. There is no number beyond the finite
ones. -/
def Numeral.json? (n : Numeral) : Option Json :=
  if n.fraction = [] ∧ n.power = none then
    some (.integer (if n.negative then -(n.mantissa : Int) else n.mantissa))
  else
    let x := Binary64.ofDecimal n.negative n.mantissa n.scale
    if h : x.isFinite = true then some (.real ⟨x, h⟩) else none

/-- One digit or more. -/
def readDigits? (s : List Char) : Option (List Char × List Char) :=
  let ds := s.takeWhile Decimal.isDigit
  if ds = [] then none else some (ds, s.dropWhile Decimal.isDigit)

/-- The point and the digits behind it, if there is a point. -/
def readFraction? : List Char → Option (List Char × List Char)
  | [] => some ([], [])
  | c :: s => if c = '.' then readDigits? s else some ([], c :: s)

/-- The exponent, if there is one. -/
def readPower? : List Char → Option (Option Int × List Char)
  | [] => some (none, [])
  | c :: s =>
    if c = 'e' ∨ c = 'E' then
      match s with
      | '-' :: s => (readDigits? s).map fun r => (some (-(Decimal.value r.1 : Int)), r.2)
      | '+' :: s => (readDigits? s).map fun r => (some (Decimal.value r.1 : Int), r.2)
      | s => (readDigits? s).map fun r => (some (Decimal.value r.1 : Int), r.2)
    else some (none, c :: s)

/-- A number after its sign. Zero is the only whole number that begins with zero. -/
def readMagnitude? (negative : Bool) (s : List Char) : Option (Numeral × List Char) := do
  let (whole, s) ← readDigits? s
  if whole.head? = some '0' ∧ whole ≠ ['0'] then none
  else
    let (fraction, s) ← readFraction? s
    let (power, s) ← readPower? s
    some (⟨negative, whole, fraction, power⟩, s)

def readNumeral? : List Char → Option (Numeral × List Char)
  | [] => none
  | c :: s => if c = '-' then readMagnitude? true s else readMagnitude? false (c :: s)

/-! ## Strings -/

def hexValue? (c : Char) : Option Nat :=
  if '0' ≤ c ∧ c ≤ '9' then some (c.toNat - 0x30)
  else if 'a' ≤ c ∧ c ≤ 'f' then some (c.toNat - 0x57)
  else if 'A' ≤ c ∧ c ≤ 'F' then some (c.toNat - 0x37)
  else none

/-- The four hexadecimal digits of a unit of UTF-16. -/
def readUnit? : List Char → Option (Nat × List Char)
  | a :: b :: c :: d :: s => do
    let a ← hexValue? a
    let b ← hexValue? b
    let c ← hexValue? c
    let d ← hexValue? d
    some (0x1000 * a + 0x100 * b + 0x10 * c + d, s)
  | _ => none

/-- The second half of a surrogate pair, whose first half is given. -/
def readLowSurrogate? (high : Nat) : List Char → Option (Char × List Char)
  | '\\' :: 'u' :: s => do
    let (low, s) ← readUnit? s
    if 0xDC00 ≤ low ∧ low ≤ 0xDFFF then
      some (Char.ofNat (0x10000 + 0x400 * (high - 0xD800) + (low - 0xDC00)), s)
    else none
  | _ => none

/-- The character that a letter behind a backslash stands for. -/
def escaped? (c : Char) : Option Char :=
  if c = '"' ∨ c = '\\' ∨ c = '/' then some c
  else if c = 'b' then some '\x08'
  else if c = 'f' then some '\x0c'
  else if c = 'n' then some '\n'
  else if c = 'r' then some '\r'
  else if c = 't' then some '\t'
  else none

/-- The character of an escape, after the backslash. -/
def readEscape? : List Char → Option (Char × List Char)
  | [] => none
  | c :: s =>
    if c = 'u' then do
      let (unit, s) ← readUnit? s
      if 0xD800 ≤ unit ∧ unit ≤ 0xDBFF then readLowSurrogate? unit s
      else if 0xDC00 ≤ unit ∧ unit ≤ 0xDFFF then none
      else some (Char.ofNat unit, s)
    else (escaped? c).map fun d => (d, s)

theorem readUnit?_length {s rest : List Char} {n : Nat} (h : readUnit? s = some (n, rest)) :
    rest.length < s.length := by
  unfold readUnit? at h
  split at h
  · simp only [Option.bind_eq_bind, Option.bind_eq_some_iff, Option.some.injEq, Prod.mk.injEq] at h
    obtain ⟨_, _, _, _, _, _, _, _, _, rfl⟩ := h
    simp only [List.length_cons]
    omega
  · cases h

theorem readLowSurrogate?_length {s rest : List Char} {high : Nat} {c : Char}
    (h : readLowSurrogate? high s = some (c, rest)) : rest.length < s.length := by
  unfold readLowSurrogate? at h
  split at h
  · simp only [Option.bind_eq_bind, Option.bind_eq_some_iff] at h
    obtain ⟨⟨low, s'⟩, hu, h⟩ := h
    have := readUnit?_length hu
    split at h
    · simp only [Option.some.injEq, Prod.mk.injEq] at h
      simp only [List.length_cons, ← h.2]
      omega
    · cases h
  · cases h

theorem readEscape?_length {s rest : List Char} {c : Char} (h : readEscape? s = some (c, rest)) :
    rest.length < s.length := by
  cases s with
  | nil => cases h
  | cons d s =>
    simp only [readEscape?] at h
    rw [List.length_cons]
    split at h
    · simp only [Option.bind_eq_bind, Option.bind_eq_some_iff] at h
      obtain ⟨⟨unit, s'⟩, hu, h⟩ := h
      have := readUnit?_length hu
      simp only at h
      split at h
      · have := readLowSurrogate?_length h
        omega
      · split at h
        · cases h
        · simp only [Option.some.injEq, Prod.mk.injEq] at h
          rw [← h.2]
          omega
    · simp only [Option.map_eq_some_iff, Prod.mk.injEq] at h
      obtain ⟨_, _, _, rfl⟩ := h
      omega

/-- The characters of a string up to the quote that closes it. -/
def readChars? : List Char → Option (List Char × List Char)
  | [] => none
  | c :: s =>
    if c = '"' then some ([], s)
    else if c = '\\' then
      match _h : readEscape? s with
      | none => none
      | some (d, s') => (readChars? s').map fun r => (d :: r.1, r.2)
    else if c.toNat < 0x20 then none
    else (readChars? s).map fun r => (c :: r.1, r.2)
termination_by s => s.length
decreasing_by
  · have := readEscape?_length _h
    simp only [List.length_cons]
    omega
  · simp

/-! ## Values -/

/-- The given characters. -/
def readWord? (word s : List Char) : Option (List Char) :=
  if word <+: s then some (s.drop word.length) else none

/-- A string, with both its quotes. -/
def readString? : List Char → Option (String × List Char)
  | [] => none
  | c :: s => if c = '"' then (readChars? s).map fun r => (String.ofList r.1, r.2) else none

/-- One item or more with commas between them, and the character that closes the list. -/
def readItems? {α : Type} (item : List Char → Option (α × List Char)) (close : Char) :
    Nat → List Char → Option (List α × List Char)
  | 0, _ => none
  | fuel + 1, s =>
    match item s with
    | none => none
    | some (a, s) =>
      match skipBlank s with
      | [] => none
      | c :: s =>
        if c = ',' then (readItems? item close fuel s).map fun r => (a :: r.1, r.2)
        else if c = close then some ([a], s)
        else none

/-- Any number of items with commas between them, and the character that closes the list. -/
def readList? {α : Type} (item : List Char → Option (α × List Char)) (close : Char) (fuel : Nat) (s : List Char) :
    Option (List α × List Char) :=
  match skipBlank s with
  | [] => none
  | c :: s' => if c = close then some ([], s') else readItems? item close fuel s

/-- A member of an object. -/
def readMember? (value : List Char → Option (Json × List Char)) (s : List Char) :
    Option ((String × Json) × List Char) :=
  match readString? (skipBlank s) with
  | none => none
  | some (k, s) =>
    match skipBlank s with
    | [] => none
    | c :: s => if c = ':' then (value s).map fun r => ((k, r.1), r.2) else none

/-- A value, with the white space in front of it. -/
def readValue? : Nat → List Char → Option (Json × List Char)
  | 0, _ => none
  | fuel + 1, s =>
    match skipBlank s with
    | [] => none
    | c :: s =>
      if c = '"' then (readString? (c :: s)).map fun r => (.string r.1, r.2)
      else if c = '[' then (readList? (readValue? fuel) ']' fuel s).map fun r => (.array r.1, r.2)
      else if c = '{' then (readList? (readMember? (readValue? fuel)) '}' fuel s).map fun r => (.object r.1, r.2)
      else if c = 'n' then (readWord? ['u', 'l', 'l'] s).map fun r => (.null, r)
      else if c = 't' then (readWord? ['r', 'u', 'e'] s).map fun r => (.bool true, r)
      else if c = 'f' then (readWord? ['a', 'l', 's', 'e'] s).map fun r => (.bool false, r)
      else
        match readNumeral? (c :: s) with
        | none => none
        | some (n, s) => n.json?.map fun v => (v, s)

/-- The value that a text writes. -/
def read? (text : String) : Option Json :=
  match readValue? (text.toList.length + 1) text.toList with
  | none => none
  | some (v, rest) => if skipBlank rest = [] then some v else none

end FirstRow.Json
