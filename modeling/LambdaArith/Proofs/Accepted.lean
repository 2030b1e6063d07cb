import LambdaArith.Proofs.Shape

/-!
# Acceptable programs

Whether a program can be lowered into a module depends only on its expressions and on the names
that globals and functions of the module have. A `Scope` has those names. It changes while
expressions are read in order, each from left to right and from the inside out.
-/

namespace LambdaArith

/-- The names that globals have, and those that functions have. -/
structure Scope where
  globals : List String
  functions : List String
deriving DecidableEq, Repr

namespace Expr

/-- The parameters and the body of the lambda at the end of a chain of definitions. -/
def lambda? : Expr → Option (List String × Expr)
  | lambda parameters body => some (parameters, body)
  | define _ value => value.lambda?
  | _ => none

/-- The name that a chain of definitions gives to the lambda at its end. -/
def functionName? : Expr → Option String
  | define name value => if value.lambda?.isSome then some name else none
  | _ => none

/-- Whether there is a lambda anywhere in the expression. -/
def hasLambda : Expr → Bool
  | number _ => false
  | binary _ lhs rhs => lhs.hasLambda || rhs.hasLambda
  | define _ value => value.hasLambda
  | lambda _ _ => true
  | identifier _ => false

/-- Whether the expression is built of numbers and operators only. -/
def isArithmetic : Expr → Bool
  | number _ => true
  | binary _ lhs rhs => lhs.isArithmetic && rhs.isArithmetic
  | _ => false

/-- The scope after an expression. A definition names the lambda at the end of its chain, which
has no other name then, or a global. -/
def scopeAfter : Expr → Scope → Scope
  | number _, scope => scope
  | binary _ lhs rhs, scope => rhs.scopeAfter (lhs.scopeAfter scope)
  | define name value, scope =>
    let inner := value.scopeAfter scope
    if value.lambda?.isSome then
      { inner with
        functions := name :: inner.functions.filter fun other => value.functionName? ≠ some other }
    else { inner with globals := name :: inner.globals }
  | lambda _ body, scope => body.scopeAfter scope
  | identifier _, scope => scope

/-- A lambda occurs only as the whole expression or at the end of a chain of definitions that
starts at the root. -/
def LambdasAtEnd : Expr → Prop
  | number _ => True
  | binary _ lhs rhs => lhs.hasLambda = false ∧ rhs.hasLambda = false
  | define _ value => value.LambdasAtEnd
  | lambda _ body => body.hasLambda = false
  | identifier _ => True

/-- Each identifier is a parameter of the lambda around it, or a global at that point. -/
def IdentifiersBound (parameters : List String) : Expr → Scope → Prop
  | number _, _ => True
  | binary _ lhs rhs, scope =>
    lhs.IdentifiersBound parameters scope ∧
      rhs.IdentifiersBound parameters (lhs.scopeAfter scope)
  | define _ value, scope => value.IdentifiersBound parameters scope
  | lambda inner body, scope => body.IdentifiersBound inner scope
  | identifier name, scope => name ∈ parameters ∨ name ∈ scope.globals

/-- The expression is built of numbers and operators only, or denotes a global and no parameter,
or is a definition. -/
def CanInitialize (parameters : List String) (scope : Scope) : Expr → Prop
  | define _ _ => True
  | identifier name => name ∈ scope.globals ∧ name ∉ parameters
  | e => e.isArithmetic = true

/-- Each definition that is not on a chain ending in a lambda has a value that a global can be
initialized with. -/
def DefinitionsConstant (parameters : List String) : Expr → Scope → Prop
  | number _, _ => True
  | binary _ lhs rhs, scope =>
    lhs.DefinitionsConstant parameters scope ∧
      rhs.DefinitionsConstant parameters (lhs.scopeAfter scope)
  | define _ value, scope =>
    value.DefinitionsConstant parameters scope ∧
      (value.lambda? = none → value.CanInitialize parameters scope)
  | lambda inner body, scope => body.DefinitionsConstant inner scope
  | identifier _, _ => True

/-- The name of each definition, at the moment when it is bound, belongs to no global and to no
function but the one that the chain names. -/
def NamesFree : Expr → Scope → Prop
  | number _, _ => True
  | binary _ lhs rhs, scope => lhs.NamesFree scope ∧ rhs.NamesFree (lhs.scopeAfter scope)
  | define name value, scope =>
    value.NamesFree scope ∧ name ∉ (value.scopeAfter scope).globals ∧
      (name ∈ (value.scopeAfter scope).functions → value.functionName? = some name)
  | lambda _ body, scope => body.NamesFree scope
  | identifier _, _ => True

/-- An expression of a program is acceptable in a scope. -/
structure Accepted (e : Expr) (scope : Scope) : Prop where
  lambdasAtEnd : e.LambdasAtEnd
  parametersDistinct : e.ParametersDistinct
  identifiersBound : e.IdentifiersBound [] scope
  definitionsConstant : e.DefinitionsConstant [] scope
  namesFree : e.NamesFree scope

/-- The expressions of a program are acceptable in order. -/
def AcceptedEach : List Expr → Scope → Prop
  | [], _ => True
  | e :: rest, scope => e.Accepted scope ∧ AcceptedEach rest (e.scopeAfter scope)

/-- Without lambdas, none is at the end of a chain. -/
theorem lambda?_of_hasLambda {e : Expr} (h : e.hasLambda = false) : e.lambda? = none := by
  induction e with
  | define name value ih => exact ih h
  | lambda => cases h
  | _ => rfl

/-- Without lambdas, no parameter is repeated. -/
theorem parametersDistinct_of_hasLambda {e : Expr} (h : e.hasLambda = false) :
    e.ParametersDistinct := by
  induction e with
  | number => trivial
  | binary op lhs rhs ihl ihr =>
    rw [hasLambda, Bool.or_eq_false_iff] at h
    exact ⟨ihl h.1, ihr h.2⟩
  | define name value ih => exact ih h
  | lambda => cases h
  | identifier => trivial

/-- Without lambdas, all that occur are at the end. -/
theorem lambdasAtEnd_of_hasLambda {e : Expr} (h : e.hasLambda = false) : e.LambdasAtEnd := by
  induction e with
  | number => trivial
  | binary op lhs rhs => exact Bool.or_eq_false_iff.mp h
  | define name value ih => exact ih h
  | lambda => cases h
  | identifier => trivial

/-- If lambdas occur only at the end, and there is none at the end, there is none at all. -/
theorem LambdasAtEnd.hasLambda {e : Expr} (h : e.LambdasAtEnd) (hlambda : e.lambda? = none) :
    e.hasLambda = false := by
  induction e with
  | number => rfl
  | binary op lhs rhs => exact Bool.or_eq_false_iff.mpr h
  | define name value ih => exact ih h hlambda
  | lambda => cases hlambda
  | identifier => rfl

end Expr

end LambdaArith
