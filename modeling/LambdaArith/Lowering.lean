import LambdaArith.Builder

/-!
# Lowering

Expressions become parts of a module. Numbers and operators on them become constants, what
depends on a parameter or a global becomes instructions, a lambda becomes a function, and a
definition names a function or makes a global.

There are two scopes and no more: the parameters of the function that is being built, and
the globals. A lambda inside another does not see the parameters around it, and no function
can be referred to.
-/

namespace LambdaArith

/-- What an identifier stands for. -/
inductive Resolution where
  | parameter (value : Value)
  | global (value : Value)
deriving Repr

/-- The value that an identifier has. -/
def Resolution.value : Resolution → Value
  | parameter value => value
  | global value => value

/-- Looks a name up among the parameters of a function, if there is one, and then among the
globals. -/
def Module.resolve (m : Module) (function : Option Nat) (name : String) : Option Resolution :=
  let parameters := match function with
    | none => []
    | some id => m.parameters id
  match parameters.find? fun parameter => parameter.1 = name with
  | some (_, value) => some (.parameter value)
  | none => (m.global? name).map .global

/-- The first name of a list that has been there before. -/
def firstRepeated (seen : List String) : List String → Option String
  | [] => none
  | name :: rest =>
    if name ∈ seen then some name else firstRepeated (seen ++ [name]) rest

namespace Build

/-- The value of an identifier at the insertion point. -/
def resolve (name : String) : Build Value := do
  let builder ← get
  match builder.module.resolve (builder.point.map InsertPoint.function) name with
  | none => fail (.unresolvedIdentifier name)
  | some resolution => return resolution.value

/-- Gives a name to a value: to a function as its own, to anything else as that of a new
global. -/
def define (name : String) (value : Value) : Build Value := do
  if (← get).module.isFunction value then
    apply fun m => (m.setName value name).map fun m => ((), m)
    record (.definedFunction name)
    return value
  else
    let global ← apply fun m => m.addGlobal name value
    record (.definedGlobal name)
    return global

/-- Makes a function of one block out of the work that gives its result. -/
def lambda (parameters : List String) (body : Build Value) : Build Value :=
  match firstRepeated [] parameters with
  | some name => fail (.repeatedParameter name)
  | none => do
    let function ← apply fun m => .ok (m.addFunction parameters)
    let entry ← apply fun m => m.appendBlock function "entry"
    within entry do
      let result ← body
      ret result
      return .function function

end Build

namespace Expr

/-- Lowers an expression at the insertion point, operands from left to right, and gives its
value. -/
def lower : Expr → Build Value
  | number x => return .constant x
  | binary op lhs rhs => do
    let left ← lhs.lower
    let right ← rhs.lower
    Build.operation op left right
  | define name value => do
    Build.define name (← value.lower)
  | lambda parameters body => Build.lambda parameters body.lower
  | identifier name => Build.resolve name

/-- Lowers an expression of a program. One that is neither a definition nor a lambda is made
the body of a function without parameters. -/
def lowerTopLevel (expr : Expr) : Build Value :=
  if expr.isDefinitionOrLambda then expr.lower else (lambda [] expr).lower

/-- Lowers the expressions of a program in order, up to the first that fails. -/
def lowerEach : List Expr → Build (List Value)
  | [] => return []
  | expr :: rest => do
    let value ← expr.lowerTopLevel
    let values ← lowerEach rest
    return value :: values

end Expr

end LambdaArith
