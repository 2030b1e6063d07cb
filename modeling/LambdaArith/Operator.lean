/-!
# The four operators

An operator is written between a pair of parentheses in front of its two operands. The same
four operators are the arithmetic instructions of a module, where each has a mnemonic and
gives its name to the result.
-/

namespace LambdaArith

/-- The arithmetic operators on doubles. -/
inductive Operator where
  | add
  | sub
  | mul
  | div
deriving DecidableEq, Repr

namespace Operator

/-- All operators, in the order in which they are numbered. -/
def all : List Operator := [add, sub, mul, div]

/-- How the operator is written in source text. -/
def symbol : Operator → String
  | add => "+"
  | sub => "-"
  | mul => "*"
  | div => "/"

/-- The operator that is written like this. -/
def ofSymbol? (text : String) : Option Operator :=
  all.find? fun op => op.symbol = text

/-- How the operator is written in the text of a module. -/
def mnemonic : Operator → String
  | add => "fadd"
  | sub => "fsub"
  | mul => "fmul"
  | div => "fdiv"

/-- The operator with this mnemonic. -/
def ofMnemonic? (text : String) : Option Operator :=
  all.find? fun op => op.mnemonic = text

/-- The name that the result of an instruction asks for. -/
def resultName : Operator → String
  | add => "addOp"
  | sub => "subOp"
  | mul => "mulOp"
  | div => "divOp"

/-- The value of the operator on two doubles. -/
def apply : Operator → Float → Float → Float
  | add, x, y => x + y
  | sub, x, y => x - y
  | mul, x, y => x * y
  | div, x, y => x / y

end Operator

end LambdaArith
