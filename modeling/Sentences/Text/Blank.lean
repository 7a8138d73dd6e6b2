/-!
# Text, and which of its characters are blank

Text is a list of characters. A character is blank when it has the Unicode property White_Space:
twenty-five characters in ten ranges. This is the only notion of white space outside JSON.
The zero width space, the byte order mark and the four separators before the space (1C to 1F)
are not blank.
-/

namespace Sentences

/-- Text: a list of Unicode characters. -/
abbrev Text := List Char

namespace Text

/-- The ranges of the property White_Space, both ends included. -/
def blankRanges : List (Nat × Nat) :=
  [(0x0009, 0x000D), (0x0020, 0x0020), (0x0085, 0x0085), (0x00A0, 0x00A0), (0x1680, 0x1680),
   (0x2000, 0x200A), (0x2028, 0x2029), (0x202F, 0x202F), (0x205F, 0x205F), (0x3000, 0x3000)]

/-- Whether a code point lies in one of a list of ranges, both ends included. -/
def inRanges (ranges : List (Nat × Nat)) (n : Nat) : Bool :=
  ranges.any fun r => decide (r.1 ≤ n ∧ n ≤ r.2)

/-- Whether a character is white space. -/
def isBlank (c : Char) : Bool :=
  inRanges blankRanges c.toNat

end Text

end Sentences
