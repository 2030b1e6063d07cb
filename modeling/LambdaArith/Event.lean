import LambdaArith.Error
import LambdaArith.Module

/-!
# Events

What happens on the way is recorded as a list of events. An event is part of the result of
the function that causes it; whether and how it is shown is decided by who calls.
-/

namespace LambdaArith

/-- How important an event is, from the most important to the least. -/
inductive Level where
  | error
  | warn
  | info
  | debug
  | trace
deriving DecidableEq, Repr

namespace Level

/-- The name of a level. -/
def name : Level → String
  | error => "error"
  | warn => "warn"
  | info => "info"
  | debug => "debug"
  | trace => "trace"

/-- The rank of a level; the higher, the less important. -/
def rank : Level → Nat
  | error => 0
  | warn => 1
  | info => 2
  | debug => 3
  | trace => 4

/-- The mark of a level at the start of a line, five characters wide. -/
def label : Level → String
  | error => "ERROR"
  | warn => " WARN"
  | info => " INFO"
  | debug => "DEBUG"
  | trace => "TRACE"

end Level

/-- Something worth to be recorded. -/
inductive Event where
  | scannedToken (token : Token)
  | parsedForm (form : Form)
  | definedGlobal (name : String)
  | definedFunction (name : String)
  | emittingOperation (op : Operator) (point : InsertPoint)
  | emittingReturn (point : InsertPoint)
  | rollingBack (error : LoweringError)
  | compiling (input : String) (target : Target)
  | wroteModule (output : String)
  | compiledLine (count : Nat)
deriving Repr

namespace Event

/-- How important an event is. -/
def level : Event → Level
  | scannedToken _ => .trace
  | parsedForm _ => .debug
  | definedGlobal _ => .debug
  | definedFunction _ => .debug
  | emittingOperation _ _ => .trace
  | emittingReturn _ => .trace
  | rollingBack _ => .debug
  | compiling _ _ => .info
  | wroteModule _ => .info
  | compiledLine _ => .debug

/-- An insertion point in the line of an event. -/
def pointText (point : InsertPoint) : String :=
  "InsertPoint \x7b function: FunctionId(" ++ toString point.function ++ "), block: BlockId(" ++
    toString point.block ++ ") \x7d"

/-- What has happened, with the details behind it. -/
def message : Event → String
  | scannedToken token =>
    "scanned token kind=" ++ token.kind.name ++ " lexeme=" ++ token.lexeme
  | parsedForm form =>
    "parsed top-level expression start=" ++ toString form.first ++ " end=" ++
      toString form.last ++ " expr=" ++ form.expr.text
  | definedGlobal name => "defined global name=" ++ name
  | definedFunction name => "defined function name=" ++ name
  | emittingOperation op point =>
    "emitting float op opcode=" ++ op.mnemonic ++ " point=" ++ pointText point
  | emittingReturn point => "emitting ret point=" ++ pointText point
  | rollingBack error => "rolling back module err=" ++ error.message
  | compiling input target => "compiling input=" ++ input ++ " target=" ++ target.text
  | wroteModule output => "wrote module output=" ++ output
  | compiledLine count => "compiled line count=" ++ toString count

/-- The line of an event in a log. -/
def line (event : Event) : String :=
  event.level.label ++ " " ++ event.message ++ "\n"

/-- The log of the events that are at least as important as the given level. -/
def log (most : Level) (events : List Event) : String :=
  String.join ((events.filter fun event => event.level.rank ≤ most.rank).map line)

end Event

end LambdaArith
