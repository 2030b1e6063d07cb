/-!
# Bit patterns of doubles

A double is a sign and one of the patterns `0, …, infinity`, or it is not a number. On
these patterns the order of the numbers is the order of the naturals, so rounding a
fraction to the nearest double is arithmetic on naturals: `units` says which multiple of
the least positive double a pattern stands for, and `nearest` goes the other way.
-/

namespace LambdaArith.Binary64

/-- How many patterns share an exponent. -/
def fractions : Nat := Nat.pow 2 52

/-- The bit that is set in negative doubles. -/
def signBit : Nat := Nat.pow 2 63

/-- How many times the least positive double goes into one. -/
def unitsPerOne : Nat := Nat.pow 2 1074

/-- The pattern of infinity. The finite patterns are the naturals below it. -/
def infinity : Nat := 2047 * fractions

/-- The pattern of the result of an operation that has no number for an answer. -/
def notANumber : Nat := infinity + fractions / 2

/-- The number that a finite pattern stands for, as a multiple of the least positive
double. The patterns with exponent zero are the multiples less than `fractions`. -/
def units (bits : Nat) : Nat :=
  if bits / fractions = 0 then bits
  else (fractions + bits % fractions) * Nat.pow 2 (bits / fractions - 1)

/-- The pattern nearest to a fraction, the even one when two are equally near. What is
too large for a finite pattern becomes infinity.

With `shift` chosen so that the quotient by `2 ^ shift` units has 53 binary digits, or
`shift = 0` below that, the pattern is `shift * fractions` plus the rounded quotient; a
carry out of the quotient lands in the next exponent by itself. -/
def nearest (numerator denominator : Nat) : Nat :=
  let scaled := numerator * unitsPerOne
  let shift := (scaled / denominator).log2 - 52
  let step := denominator * Nat.pow 2 shift
  let quotient := scaled / step
  let twice := 2 * (scaled % step)
  let rounded :=
    if step < twice ∨ (twice = step ∧ quotient % 2 = 1) then quotient + 1 else quotient
  min infinity (shift * fractions + rounded)

/-- The double with the given sign and pattern. -/
def toFloat (negative : Bool) (bits : Nat) : Float :=
  Float.ofBits (UInt64.ofNat (if negative then signBit + bits else bits))

/-- Whether the sign bit of a double is set. -/
def isNegative (x : Float) : Bool :=
  decide (signBit ≤ x.toBits.toNat)

/-- The pattern of a double without its sign bit. -/
def magnitude (x : Float) : Nat :=
  x.toBits.toNat % signBit

end LambdaArith.Binary64
