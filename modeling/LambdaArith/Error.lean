import LambdaArith.Backend
import LambdaArith.Program

/-!
# Errors of a source

A source can fail at three stages: its characters may be no tokens, its tokens no program,
or its program may not make sense in the module that it is compiled into.
-/

namespace LambdaArith

/-- Why an expression cannot be lowered into a module. -/
inductive LoweringError where
  | unresolvedIdentifier (name : String)
  | repeatedParameter (name : String)
  | backend (error : BackendError)
deriving DecidableEq, Repr

/-- What is said about the error. -/
def LoweringError.message : LoweringError → String
  | unresolvedIdentifier name => "unresolved identifier `" ++ name ++ "`"
  | repeatedParameter name => "parameter `" ++ name ++ "` is repeated"
  | backend error => error.message

/-- Why a source cannot be compiled. -/
inductive Error where
  | lex (error : LexError)
  | parse (error : ParseError)
  | lowering (error : LoweringError)
deriving DecidableEq, Repr

/-- What is said about the error. -/
def Error.message : Error → String
  | lex error => error.fault.message
  | parse error => error.message
  | lowering error => error.message

/-- The expressions of a source. -/
def parseSource (source : String) : Except Error (List Expr) :=
  match Token.ofSource source with
  | .error error => .error (.lex error)
  | .ok tokens =>
    match parseProgram tokens with
    | .error error => .error (.parse error)
    | .ok exprs => .ok exprs

end LambdaArith
