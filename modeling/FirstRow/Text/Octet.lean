import FirstRow.Text.Utf8

/-!
# Octets as ASCII

Classes and letter case of octets that stand for ASCII characters, and names that are equal up to ASCII letter case.
-/
namespace FirstRow.Text.Octet

/-- A decimal digit. -/
def isDigit (b : UInt8) : Bool :=
  0x30 ≤ b && b ≤ 0x39

/-- The value of a hexadecimal digit. -/
def hexValue? (b : UInt8) : Option Nat :=
  if isDigit b then some (b.toNat - 0x30)
  else if 0x41 ≤ b && b ≤ 0x46 then some (b.toNat - 0x37)
  else if 0x61 ≤ b && b ≤ 0x66 then some (b.toNat - 0x57)
  else none

/-- A hexadecimal digit. -/
def isHexDigit (b : UInt8) : Bool :=
  (hexValue? b).isSome

/-- A letter. -/
def isLetter (b : UInt8) : Bool :=
  (0x41 ≤ b && b ≤ 0x5A) || (0x61 ≤ b && b ≤ 0x7A)

/-- White space. -/
def isBlank (b : UInt8) : Bool :=
  b = 0x20 || (0x09 ≤ b && b ≤ 0x0D)

/-- A letter in lower case; anything else as it is. -/
def lower (b : UInt8) : UInt8 :=
  if 0x41 ≤ b && b ≤ 0x5A then b + 0x20 else b

/-- Equality up to letter case. -/
def same (s t : List UInt8) : Bool :=
  s.map lower = t.map lower

/-- Whether octets spell a word that is given in lower case, in any letter case. -/
def spells (word : String) (s : List UInt8) : Bool :=
  s.map lower = Utf8.ofString word

/-- The value of decimal digits. -/
def value (digits : List UInt8) : Nat :=
  digits.foldl (fun n b => 10 * n + (b.toNat - 0x30)) 0

/-- The value of hexadecimal digits. -/
def hexadecimal (digits : List UInt8) : Nat :=
  digits.foldl (fun n b => 0x10 * n + (hexValue? b).getD 0) 0

theorem same_iff {s t : List UInt8} : same s t = true ↔ s.map lower = t.map lower := by
  simp [same]

end FirstRow.Text.Octet
