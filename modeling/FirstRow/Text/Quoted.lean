import FirstRow.Text.Extending
import FirstRow.Text.Unprintable
import FirstRow.Decimal.Digits

/-!
# Quoted text for the log

A string as the log shows it: between double quotes, with the quote and the backslash escaped and every character
that could not be seen, or that would attach to its neighbour, written as its code point. So no stored text can end
its own quotes or start a new line of the log.
-/
namespace FirstRow.Text

/-- Lower-case hexadecimal digits without leading zeros. -/
def hexadecimal (n : Nat) : List Char :=
  if n < 16 then [digit n] else hexadecimal (n / 16) ++ [digit (n % 16)]
termination_by n
where
  /-- One digit. -/
  digit (d : Nat) : Char :=
    if d < 10 then Char.ofNat (0x30 + d) else Char.ofNat (0x57 + d)

/-- A code point written out. -/
def codePoint (c : Char) : List Char :=
  '\\' :: 'u' :: '\x7b' :: hexadecimal c.toNat ++ ['\x7d']

/-- A character inside a quoted text. -/
def quotedChar (c : Char) : List Char :=
  if c = '\x00' then ['\\', '0']
  else if c = '\t' then ['\\', 't']
  else if c = '\r' then ['\\', 'r']
  else if c = '\n' then ['\\', 'n']
  else if c = '\\' then ['\\', '\\']
  else if c = '"' then ['\\', '"']
  else if 0x20 ≤ c.toNat ∧ c.toNat < 0x7F then [c]
  else if isExtending c || isUnprintable c then codePoint c
  else [c]

/-- A quoted text. -/
def quoted (s : List Char) : List Char :=
  '"' :: s.flatMap quotedChar ++ ['"']

end FirstRow.Text
