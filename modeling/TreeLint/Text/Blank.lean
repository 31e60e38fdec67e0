/-
  Blank characters and the removal of blanks at both ends of a text.

  The blanks are the Unicode white space characters together with the four information separators
  U+001C to U+001F.
-/
import TreeLint.Text.CodePoint

set_option autoImplicit false

namespace TreeLint.Text

/-- Ranges of the blank code points. -/
def blankRanges : List (Nat × Nat) :=
  [(0x9, 0xd), (0x1c, 0x20), (0x85, 0x85), (0xa0, 0xa0), (0x1680, 0x1680), (0x2000, 0x200a),
   (0x2028, 0x2029), (0x202f, 0x202f), (0x205f, 0x205f), (0x3000, 0x3000)]

/-- The character is blank. -/
def isBlank (c : Char) : Bool :=
  CodePoint.inRanges blankRanges c

/-- The character is one of the four information separators. -/
def isSeparator (c : Char) : Bool :=
  CodePoint.inRanges [(0x1c, 0x1f)] c

/-- The text without the characters of a class at its two ends. -/
def trimBy (p : Char → Bool) (cs : List Char) : List Char :=
  ((cs.dropWhile p).reverse.dropWhile p).reverse

/-- The text without the blanks at its two ends. -/
def trim (cs : List Char) : List Char :=
  trimBy isBlank cs

end TreeLint.Text
