import LambdaArith.Number.Decimal

/-!
# How doubles are written

Both written forms of a double show the digits of its shortest decimal. Source text never
uses an exponent and writes whole numbers without a point. The text of a module always
shows that a number is a double: by a point, or by an exponent where the number is very
large or very small.
-/

namespace LambdaArith

namespace Decimal

/-- The decimal digits of the coefficient. -/
def digits (d : Decimal) : List Char :=
  Nat.toDigits 10 d.coefficient

/-- How many of the digits stand before the decimal point. Not positive if the number is
less than one tenth of its leading power of ten, when zeros follow the point. -/
def point (d : Decimal) : Int :=
  d.digits.length + d.exponent

/-- The digits with as many zeros as they need and no exponent. -/
def positional (d : Decimal) : List Char :=
  if 0 ≤ d.exponent then d.digits ++ List.replicate d.exponent.toNat '0'
  else if 0 < d.point then
    d.digits.take d.point.toNat ++ '.' :: d.digits.drop d.point.toNat
  else '0' :: '.' :: (List.replicate (-d.point).toNat '0' ++ d.digits)

/-- One digit before the point, the others after it, and the exponent that this leaves. -/
def scientific (d : Decimal) : List Char :=
  let exponent := d.point - 1
  let mantissa := match d.digits with
    | [] => []
    | [c] => [c]
    | c :: cs => c :: '.' :: cs
  mantissa ++ 'e' :: (if exponent < 0 then ['-'] else []) ++ Nat.toDigits 10 exponent.natAbs

/-- Positional from one ten-thousandth up to, and not including, ten to the sixteenth, with
a digit on each side of the point; scientific outside that. -/
def marked (d : Decimal) : List Char :=
  if d.coefficient = 0 ∨ (-3 ≤ d.point ∧ d.point ≤ 16) then
    if 0 ≤ d.exponent then d.positional ++ ['.', '0'] else d.positional
  else d.scientific

end Decimal

/-- Writes a double, given how to write a finite magnitude. A negative zero keeps its sign,
and there is one text for all that is not a number. -/
def floatText (finite : Decimal → List Char) (x : Float) : String :=
  let bits := Binary64.magnitude x
  if Binary64.infinity < bits then "NaN"
  else
    let sign := if Binary64.isNegative x then "-" else ""
    if bits = Binary64.infinity then sign ++ "inf"
    else sign ++ String.ofList (finite (Decimal.shortest bits))

/-- A double in source text: `5`, `0.25`, `100000000000000000000`. -/
def sourceFloat (x : Float) : String :=
  floatText Decimal.positional x

/-- A double in the text of a module: `5.0`, `0.25`, `1e20`. -/
def moduleFloat (x : Float) : String :=
  floatText Decimal.marked x

end LambdaArith
