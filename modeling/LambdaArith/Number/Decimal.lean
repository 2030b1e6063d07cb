import LambdaArith.Number.Binary64

/-!
# Decimals that stand for doubles

A `Decimal` is an integer coefficient times a power of ten. `Decimal.bits` rounds it to a
double, and `Decimal.shortest` is the way back: of the decimals that round to a given
double it takes one with as few digits as possible, and of those the nearest.
-/

namespace LambdaArith

/-- The number `coefficient * 10 ^ exponent`. -/
structure Decimal where
  coefficient : Nat
  exponent : Int
deriving DecidableEq, Repr

namespace Decimal

/-- The decimal as a fraction of naturals, with a denominator that is never zero. -/
def fraction (d : Decimal) : Nat × Nat :=
  match d.exponent with
  | .ofNat n => (d.coefficient * Nat.pow 10 n, 1)
  | .negSucc n => (d.coefficient, Nat.pow 10 (n + 1))

/-- The pattern of the double that the decimal rounds to. -/
def bits (d : Decimal) : Nat :=
  Binary64.nearest d.fraction.1 d.fraction.2

/-- The same number with no zeros at the end of its coefficient. -/
def reduce (d : Decimal) : Decimal :=
  if d.coefficient = 0 then ⟨0, 0⟩
  else if d.coefficient % 10 = 0 then reduce ⟨d.coefficient / 10, d.exponent + 1⟩
  else d
termination_by d.coefficient
decreasing_by omega

/-- The decimal that is exactly the double with the given pattern. A half is five tenths, so
one over `2 ^ 1074` is `5 ^ 1074` over `10 ^ 1074`. -/
def exact (bits : Nat) : Decimal :=
  ⟨Binary64.units bits * Nat.pow 5 1074, -1074⟩

/-- The multiples of `10 ^ exponent` next to the double with the given pattern, the nearer
one first. -/
def neighbours (bits : Nat) (exponent : Int) : List Decimal :=
  let numerator := Binary64.units bits * Nat.pow 10 (-exponent).toNat
  let denominator := Binary64.unitsPerOne * Nat.pow 10 exponent.toNat
  let below := numerator / denominator
  let remainder := numerator % denominator
  if remainder = 0 then [⟨below, exponent⟩]
  else if 2 * remainder < denominator then [⟨below, exponent⟩, ⟨below + 1, exponent⟩]
  else [⟨below + 1, exponent⟩, ⟨below, exponent⟩]

/-- Whether the double with the given pattern is at least `10 ^ exponent`. -/
def reaches (bits : Nat) (exponent : Int) : Bool :=
  Binary64.unitsPerOne * Nat.pow 10 exponent.toNat ≤
    Binary64.units bits * Nat.pow 10 (-exponent).toNat

/-- The number of digits before the decimal point, less the zeros that follow it: the double
with the given pattern, if not zero, lies between `10 ^ (leadingPlace bits - 1)` and
`10 ^ leadingPlace bits`. A binary digit is worth 0.30103 decimal ones, which is close
enough to know the place of the leading binary digit. -/
def leadingPlace (bits : Nat) : Int :=
  let place := ((Binary64.units bits).log2 - 1074 : Int) * 30103 / 100000 + 1
  if reaches bits place then place + 1 else place

/-- The decimal of fewest digits that rounds to the double with the given pattern. Seventeen
digits always suffice; coarser grids are tried first. -/
def shortest (bits : Nat) : Decimal :=
  let found := (List.range 17).findSome? fun (n : Nat) =>
    (neighbours bits (leadingPlace bits - (n + 1))).find? fun d => d.bits = bits
  (found.getD (exact bits)).reduce

end Decimal

end LambdaArith
