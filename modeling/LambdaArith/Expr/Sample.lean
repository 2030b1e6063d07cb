import LambdaArith.Expr

/-!
# Sample expressions

Any bytes make an expression: they are the source of the choices in building a small tree,
and zeros follow when they run out. All trees made like this have proper names, finite
numbers that are not negative, and lambdas without repeated parameters, so that their text
reads back.
-/

namespace LambdaArith

/-- Why nothing can be drawn: the choices end before the one that the bytes ask for. -/
inductive DrawError where
  | outOfRange
deriving DecidableEq, Repr

/-- A choice made from bytes, and the bytes that are left. -/
abbrev Draw (α : Type) : Type :=
  StateT (List UInt8) (Except DrawError) α

namespace Draw

/-- The next byte. -/
def byte : Draw Nat := fun bytes =>
  match bytes with
  | [] => .ok (0, [])
  | b :: rest => .ok (b.toNat, rest)

/-- A natural up to `n`, from one byte. -/
def upTo (n : Nat) : Draw Nat := do
  return (← byte) % (n + 1)

/-- A natural of this many bytes, the least significant first. -/
def word : Nat → Draw Nat
  | 0 => return 0
  | count + 1 => do
    let low ← byte
    let high ← word count
    return low + 256 * high

/-- The choice at a place of a list. -/
def pick {α : Type} (choices : List α) (index : Nat) : Draw α :=
  match choices[index]? with
  | some choice => return choice
  | none => throw .outOfRange

/-- One of the choices, from one byte. There has to be one. -/
def choose {α : Type} (choices : List α) : Draw α := do
  pick choices (← upTo (choices.length - 1))

/-- As many drawings of the same kind, in order. -/
def repeated {α : Type} (draw : Draw α) : Nat → Draw (List α)
  | 0 => return []
  | count + 1 => do
    let first ← draw
    let rest ← repeated draw count
    return first :: rest

/-- The letters, with which names start. -/
def letters : List Char :=
  "abcdefghijklmnopqrstuvwxyzABCDEFGHIJKLMNOPQRSTUVWXYZ".toList

/-- What names go on with. -/
def lettersAndDigits : List Char :=
  letters ++ "0123456789".toList

/-- A letter in front of a name that would be cut after a keyword. -/
def guardKeyword (name : List Char) : List Char :=
  if (Keyword.leading? name).isSome then 'v' :: name else name

/-- A name. -/
def name : Draw String := do
  let first ← choose letters
  let rest ← repeated (choose lettersAndDigits) (← upTo 6)
  return String.ofList (guardKeyword (first :: rest))

/-- A double: the one with these eight bytes without its sign, or zero if that is not a
finite number. -/
def number : Draw Float := do
  let bits := (← word 8) % Binary64.signBit
  return Binary64.toFloat false (if bits < Binary64.infinity then bits else 0)

/-- An operator, by the two highest bits of four bytes. -/
def operator : Draw Operator := do
  pick Operator.all ((← word 4) / 0x40000000)

/-- A list of names where each name is kept only when it comes first. -/
def distinct : List String → List String
  | [] => []
  | name :: rest => name :: (distinct rest).filter fun other => other ≠ name

end Draw

namespace Expr

/-- A tree of the given height at most. -/
def sample : Nat → Draw Expr
  | 0 => do
    match ← Draw.upTo 1 with
    | 0 => return .number (← Draw.number)
    | _ => return .identifier (← Draw.name)
  | height + 1 => do
    match ← Draw.upTo 4 with
    | 0 => return .number (← Draw.number)
    | 1 => return .identifier (← Draw.name)
    | 2 =>
      let op ← Draw.operator
      let lhs ← sample height
      let rhs ← sample height
      return .binary op lhs rhs
    | 3 =>
      let name ← Draw.name
      let value ← sample height
      return .define name value
    | _ =>
      let parameters ← Draw.repeated Draw.name (← Draw.upTo 3)
      let body ← sample height
      return .lambda (Draw.distinct parameters) body

/-- The height of sample trees. -/
def sampleHeight : Nat := 4

/-- The tree that bytes make, and the bytes that it leaves. A tree can always be drawn, so there is
no need for the zero. -/
def ofBytes (bytes : List UInt8) : Expr × List UInt8 :=
  ((sample sampleHeight).run bytes).toOption.getD (number 0, bytes)

end Expr

end LambdaArith
