import LambdaArith.Number.Text
import LambdaArith.Operator
import LambdaArith.Token

/-!
# Expressions

The trees that the language is made of, and the text that each of them is written as. The
text of a tree with proper names and numbers reads back as that tree.
-/

namespace LambdaArith

/-- An expression. A definition binds a name for everything that comes later; an identifier
is only looked up when the expression is compiled. -/
inductive Expr where
  | number (value : Float)
  | binary (op : Operator) (lhs rhs : Expr)
  | define (name : String) (value : Expr)
  | lambda (parameters : List String) (body : Expr)
  | identifier (name : String)
deriving Repr, BEq

namespace Expr

/-- The canonical source text of an expression. -/
def text : Expr → String
  | number value => sourceFloat value
  | binary op lhs rhs => "(" ++ op.symbol ++ " " ++ lhs.text ++ " " ++ rhs.text ++ ")"
  | define name value => "(" ++ Keyword.define.word ++ " " ++ name ++ " " ++ value.text ++ ")"
  | lambda parameters body =>
    "(" ++ Keyword.lambda.word ++ " (" ++ " ".intercalate parameters ++ ") " ++ body.text ++ ")"
  | identifier name => name

/-- Whether the expression gives a name to something or is a function itself. Any other
expression has to be put into a function before it can be part of a module. -/
def isDefinitionOrLambda : Expr → Bool
  | define _ _ => true
  | lambda _ _ => true
  | _ => false

end Expr

end LambdaArith
