import LambdaArith.Text.Ranges

/-!
# Classes of characters at a break

What a reader takes for one character may be written with several: a letter and its accents,
a syllable block, a picture made of pictures. Between two characters the classes of both
decide whether they belong together.
-/

namespace LambdaArith

/-- The classes of characters with respect to the breaks between them. -/
inductive BreakClass where
  | carriageReturn
  | lineFeed
  | control
  | mark
  | linker
  | nonJoiner
  | joiner
  | spacingMark
  | prepended
  | leadingJamo
  | vowelJamo
  | trailingJamo
  | openSyllable
  | closedSyllable
  | regional
  | pictograph
  | consonant
  | other
deriving DecidableEq, Repr

namespace BreakClass

/-- The class of a syllable block. There are twenty-eight in a row that differ in their ends,
and the first of them has none. -/
def ofSyllable (c : Char) : BreakClass :=
  if (c.toNat - 0xac00) % 28 = 0 then .openSyllable else .closedSyllable

/-- The class of a character. -/
def ofChar (c : Char) : BreakClass :=
  if c = '\r' then .carriageReturn
  else if c = '\n' then .lineFeed
  else if c = '\u200c' then .nonJoiner
  else if c = '\u200d' then .joiner
  else if inRanges Ranges.controls c then .control
  else if inRanges Ranges.linkers c then .linker
  else if inRanges Ranges.marks c then .mark
  else if inRanges Ranges.spacingMarks c then .spacingMark
  else if inRanges Ranges.prepended c then .prepended
  else if inRanges Ranges.leadingJamo c then .leadingJamo
  else if inRanges Ranges.vowelJamo c then .vowelJamo
  else if inRanges Ranges.trailingJamo c then .trailingJamo
  else if inRanges [(0xac00, 0xd7a3)] c then ofSyllable c
  else if inRanges [(0x1f1e6, 0x1f1ff)] c then .regional
  else if inRanges Ranges.pictographs c then .pictograph
  else if inRanges Ranges.consonants c then .consonant
  else .other

/-- Whether a character of this class never belongs to another, unless it is the line feed of
a carriage return. -/
def standsAlone : BreakClass → Bool
  | carriageReturn => true
  | lineFeed => true
  | control => true
  | _ => false

/-- Whether a character of this class belongs to whatever is before it. -/
def clings : BreakClass → Bool
  | mark => true
  | linker => true
  | nonJoiner => true
  | joiner => true
  | spacingMark => true
  | _ => false

/-- Whether two characters of these classes are parts of one syllable block. -/
def blocks : BreakClass → BreakClass → Bool
  | leadingJamo, leadingJamo => true
  | leadingJamo, vowelJamo => true
  | leadingJamo, openSyllable => true
  | leadingJamo, closedSyllable => true
  | vowelJamo, vowelJamo => true
  | vowelJamo, trailingJamo => true
  | openSyllable, vowelJamo => true
  | openSyllable, trailingJamo => true
  | closedSyllable, trailingJamo => true
  | trailingJamo, trailingJamo => true
  | _, _ => false

end BreakClass

end LambdaArith
