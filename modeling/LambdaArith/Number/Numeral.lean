import LambdaArith.Number.Decimal

/-!
# Reading numerals

A numeral is an optional sign and then a word for infinity or for what is not a number, in
any case, or digits with an optional point and an optional exponent. The double that it
stands for is the nearest one. Source text holds only digits and points; the other forms
are those of number tokens made by hand.
-/

namespace LambdaArith.Numeral

/-- A sign, if the text starts with one, and what follows. -/
def readSign : List Char → Bool × List Char
  | '-' :: rest => (true, rest)
  | '+' :: rest => (false, rest)
  | rest => (false, rest)

/-- The exponent at the end of a numeral; none written means zero. -/
def readExponent : List Char → Option Int
  | [] => some 0
  | c :: rest =>
    let (negative, digits) := readSign rest
    if (c = 'e' ∨ c = 'E') ∧ digits ≠ [] ∧ digits.all Char.isDigit then
      let n := Nat.ofDigitChars 10 digits 0
      some (if negative then -n else n)
    else none

/-- Holds an exponent in a range outside of which every decimal with `length` digits is
rounded to zero or to infinity, so that no huge power of ten is ever computed. -/
def clampExponent (length : Nat) (exponent : Int) : Int :=
  max (-(length + 400)) (min 400 exponent)

/-- The digits behind a decimal point, if the text starts with one, and what follows. -/
def readFraction : List Char → List Char × List Char
  | '.' :: rest => (rest.takeWhile Char.isDigit, rest.dropWhile Char.isDigit)
  | rest => ([], rest)

/-- A decimal: digits with an optional point, at least one digit, and an optional
exponent. -/
def readDecimal (text : List Char) : Option Decimal :=
  let whole := text.takeWhile Char.isDigit
  let (fraction, rest) := readFraction (text.dropWhile Char.isDigit)
  let digits := whole ++ fraction
  if digits = [] then none
  else (readExponent rest).map fun exponent =>
    ⟨Nat.ofDigitChars 10 digits 0, clampExponent digits.length (exponent - fraction.length)⟩

/-- The pattern of an unsigned numeral. -/
def readMagnitude (text : List Char) : Option Nat :=
  let word := String.ofList (text.map Char.toLower)
  if word = "inf" ∨ word = "infinity" then some Binary64.infinity
  else if word = "nan" then some Binary64.notANumber
  else (readDecimal text).map Decimal.bits

/-- The double that a numeral stands for. -/
def read (text : String) : Option Float :=
  let (negative, rest) := readSign text.toList
  (readMagnitude rest).map (Binary64.toFloat negative)

end LambdaArith.Numeral
