import LambdaArith.Module.LocalName
import LambdaArith.Module.SymbolTable
import LambdaArith.Operator
import LambdaArith.Target

/-!
# Modules

What a program is compiled into: globals, which are doubles, and functions from doubles to a
double, made of blocks of instructions in static single assignment form. Everything is
referred to by its place: a value is a constant or the place of what produces it, and a
place need not exist.
-/

namespace LambdaArith

/-- What an instruction can take as an operand, or a definition can have as its value. -/
inductive Value where
  | constant (x : Float)
  | parameter (function index : Nat)
  | result (function index : Nat)
  | global (id : Nat)
  | function (id : Nat)
deriving DecidableEq, Repr

/-- Everything but a function is a double. -/
def Value.isNumeric : Value → Bool
  | function _ => false
  | _ => true

/-- The end of a block of a function, where an instruction can be added. -/
structure InsertPoint where
  function : Nat
  block : Nat
deriving DecidableEq, Repr

/-- What an instruction does. -/
inductive Action where
  | compute (op : Operator) (lhs rhs : Value)
  | ret (value : Value)
deriving Repr

/-- Whether nothing can come behind the instruction in its block. -/
def Action.isTerminator : Action → Bool
  | compute _ _ _ => false
  | ret _ => true

/-- An instruction, and the name of its result if it has one. -/
structure Instruction where
  name : Option String
  action : Action
deriving Repr

/-- A block of a function, given by the places of its instructions in the function. -/
structure Block where
  label : String
  instructions : List Nat
deriving DecidableEq, Repr

/-- A function. Its instructions are listed in the order in which they have been added,
to whichever block. A function without blocks is declared and not defined. -/
structure Func where
  name : Option String
  parameters : List String
  blocks : List Block
  instructions : List Instruction
  localNames : List String
deriving Repr

/-- A named double. -/
structure Global where
  name : String
  initializer : Float
deriving Repr

/-- Globals and functions under the name of a program, compiled for a target if there is
one. The table of symbols says for each name what has it. -/
structure Module where
  name : String
  target : Option Target
  symbols : SymbolTable
  globals : List Global
  functions : List Func
deriving Repr

/-- The value that a symbol is. -/
def Symbol.value : Symbol → Value
  | global id => .global id
  | function id => .function id

/-- Where a module stood at some time: how many globals and functions it had. -/
structure Checkpoint where
  globals : Nat
  functions : Nat
deriving DecidableEq, Repr

/-- Whether a symbol was there already. -/
def Checkpoint.covers (checkpoint : Checkpoint) : Symbol → Bool
  | .global id => decide (id < checkpoint.globals)
  | .function id => decide (id < checkpoint.functions)

namespace Func

/-- A function that asks for these names for its parameters, and has no blocks yet. -/
def declare (parameters : List String) : Func :=
  let (names, taken) := LocalName.reserveAll [] parameters
  ⟨none, names, [], [], taken⟩

/-- The instructions of a block in order. -/
def blockInstructions (f : Func) (block : Block) : List Instruction :=
  block.instructions.filterMap fun index => f.instructions[index]?

/-- The instructions in the order of the blocks. -/
def orderedInstructions (f : Func) : List Instruction :=
  f.blocks.flatMap f.blockInstructions

/-- Whether nothing can be added to a block any more. -/
def isTerminated (f : Func) (block : Block) : Bool :=
  match block.instructions.getLast? with
  | none => false
  | some index => (f.instructions[index]?).any fun instruction => instruction.action.isTerminator

end Func

namespace Module

/-- A module without anything in it. -/
def empty (name : String) : Module :=
  ⟨name, none, .empty, [], []⟩

/-- What a name stands for. -/
def lookup? (m : Module) (name : String) : Option Symbol :=
  m.symbols.find? name

/-- The global with this name. -/
def global? (m : Module) (name : String) : Option Value :=
  match m.lookup? name with
  | some (.global id) => some (.global id)
  | _ => none

/-- The function with this name. -/
def function? (m : Module) (name : String) : Option Value :=
  match m.lookup? name with
  | some (.function id) => some (.function id)
  | _ => none

/-- The value that a global starts with. -/
def initializer? (m : Module) (id : Nat) : Option Float :=
  (m.globals[id]?).map Global.initializer

/-- The parameters of a function in order, each with its name. -/
def parameters (m : Module) (function : Nat) : List (String × Value) :=
  match m.functions[function]? with
  | none => []
  | some f => f.parameters.zipIdx.map fun (name, index) => (name, .parameter function index)

/-- The instructions of a function in the order of its blocks. -/
def instructions (m : Module) (function : Nat) : List Instruction :=
  match m.functions[function]? with
  | none => []
  | some f => f.orderedInstructions

/-- Whether a value is a function of the module. -/
def isFunction (m : Module) : Value → Bool
  | .function id => decide (id < m.functions.length)
  | _ => false

/-- The name of a value, if it exists and has one. -/
def valueName? (m : Module) : Value → Option String
  | .constant _ => none
  | .parameter function index => (m.functions[function]?).bind fun f => f.parameters[index]?
  | .result function index =>
    (m.functions[function]?).bind fun f => (f.instructions[index]?).bind Instruction.name
  | .global id => (m.globals[id]?).map Global.name
  | .function id => (m.functions[id]?).bind Func.name

/-- Where the module stands now. -/
def checkpoint (m : Module) : Checkpoint :=
  ⟨m.globals.length, m.functions.length⟩

end Module

end LambdaArith
