/-!
# Refusals of the backend

The backend keeps the module that is being compiled into. Each of its operations either
succeeds or refuses for one of the causes below, and then changes nothing.
-/

namespace LambdaArith

/-- Why the backend refuses an operation. -/
inductive BackendError where
  | unknownTarget (triple : String)
  | duplicateSymbol (name : String)
  | nonConstantInitializer (name : String)
  | noInsertionPoint (instruction : String)
  | notANumber
  | unnameable
  | blockTerminated
  | dangling (entity : String)
deriving DecidableEq, Repr

/-- What is said about the refusal. -/
def BackendError.message : BackendError → String
  | unknownTarget triple => "unknown target triple `" ++ triple ++ "`"
  | duplicateSymbol name => "symbol `" ++ name ++ "` is already defined"
  | nonConstantInitializer name => "initializer of global `" ++ name ++ "` is not a constant"
  | noInsertionPoint instruction =>
    "instruction `" ++ instruction ++ "` needs an enclosing function"
  | notANumber => "a function cannot be used as a number"
  | unnameable => "only globals and functions can be named"
  | blockTerminated => "block already ends in a terminator"
  | dangling entity => "no such " ++ entity ++ " in this module"

end LambdaArith
