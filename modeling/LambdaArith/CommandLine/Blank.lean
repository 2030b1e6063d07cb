import LambdaArith.Text.Ranges

/-!
# Blank lines

Which characters count as white space in a line that is typed. These are more than the
characters that may stand between tokens.
-/

namespace LambdaArith.CommandLine

/-- The characters with the property of being white space, as ranges of code points. -/
def whiteSpace : List (Nat × Nat) :=
  [(0x09, 0x0d), (0x20, 0x20), (0x85, 0x85), (0xa0, 0xa0), (0x1680, 0x1680),
    (0x2000, 0x200a), (0x2028, 0x2029), (0x202f, 0x202f), (0x205f, 0x205f), (0x3000, 0x3000)]

/-- Whether a character is white space. -/
def isWhiteSpace (c : Char) : Bool :=
  inRanges whiteSpace c

/-- Whether there is nothing to see in a line. -/
def isBlankLine (line : String) : Bool :=
  line.toList.all isWhiteSpace

end LambdaArith.CommandLine
