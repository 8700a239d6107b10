import FirstRow.Text.Ranges

/-!
# White space

The characters with the Unicode property White_Space.
-/
namespace FirstRow.Text

/-- The ten ranges of White_Space. -/
def blankRanges : Ranges :=
  [(0x9, 0xd), (0x20, 0x20), (0x85, 0x85), (0xa0, 0xa0), (0x1680, 0x1680), (0x2000, 0x200a),
   (0x2028, 0x2029), (0x202f, 0x202f), (0x205f, 0x205f), (0x3000, 0x3000)]

/-- Whether the character is white space in the sense of Unicode: besides the ASCII six this counts NEL, the
no-break space, the spaces of general punctuation and the two separators. -/
def isBlank (c : Char) : Bool :=
  blankRanges.contains c.toNat

end FirstRow.Text
