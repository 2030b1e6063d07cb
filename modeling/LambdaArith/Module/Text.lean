import LambdaArith.Module
import LambdaArith.Number.Text

/-!
# The text of a module

A module is written line by line: its name and target, the globals, the functions with their
blocks, and the attributes that all defined functions share. Operands are written by name;
one that does not exist, or has no name, is written as a question mark.
-/

namespace LambdaArith.Module

/-- How a function is written as an operand: by its name or, if it has none, by the number of
functions without a name before it. -/
def functionLabel (m : Module) (id : Nat) : String :=
  match (m.functions[id]?).bind Func.name with
  | some name => "@" ++ name
  | none => "@" ++ toString ((m.functions.take id).countP fun f => f.name.isNone)

/-- How a value is written as an operand. -/
def operandText (m : Module) (value : Value) : String :=
  match value with
  | .constant x => moduleFloat x
  | .function id =>
    if id < m.functions.length then m.functionLabel id
    else "%" ++ (m.valueName? value).getD "?"
  | .global _ => "@" ++ (m.valueName? value).getD "?"
  | _ => "%" ++ (m.valueName? value).getD "?"

/-- The line of an instruction. -/
def instructionLine (m : Module) (instruction : Instruction) : String :=
  match instruction.action with
  | .compute op lhs rhs =>
    "  %" ++ instruction.name.getD "?" ++ " = " ++ op.mnemonic ++ " double " ++
      m.operandText lhs ++ ", " ++ m.operandText rhs
  | .ret value => "  ret double " ++ m.operandText value

/-- The line of a global. -/
def globalLine (g : Global) : String :=
  "@" ++ g.name ++ " = global double " ++ moduleFloat g.initializer

/-- The line that names a function and its parameters. -/
def signatureLine (m : Module) (id : Nat) (f : Func) : String :=
  let parameters := ", ".intercalate (f.parameters.map fun name => "double %" ++ name)
  let signature := " double " ++ m.functionLabel id ++ "(" ++ parameters ++ ")"
  if f.blocks.isEmpty then "declare" ++ signature
  else "define" ++ signature ++ (if m.target.isSome then " #0" else "") ++ " \x7b"

/-- The lines of a function, behind an empty one. -/
def functionLines (m : Module) (id : Nat) (f : Func) : List String :=
  let body := f.blocks.flatMap fun block =>
    (block.label ++ ":") :: (f.blockInstructions block).map m.instructionLine
  "" :: m.signatureLine id f :: (if f.blocks.isEmpty then [] else body ++ ["\x7d"])

/-- The lines in front: the name of the module and its target. -/
def headerLines (m : Module) : List String :=
  ("; ModuleID = '" ++ m.name ++ "'") ::
    match m.target with
    | none => []
    | some target => ["target triple = \"" ++ target.triple ++ "\""]

/-- The lines at the end: what is said of the target, once for all defined functions. -/
def attributeLines (m : Module) : List String :=
  match m.target with
  | none => []
  | some target =>
    if m.functions.all fun f => f.blocks.isEmpty then []
    else
      let features :=
        if target.features = "" then ""
        else " \"target-features\"=\"" ++ target.features ++ "\""
      ["", "attributes #0 = \x7b \"target-cpu\"=\"" ++ target.cpu ++ "\"" ++ features ++ " \x7d"]

/-- All lines of a module. -/
def lines (m : Module) : List String :=
  m.headerLines ++ (if m.globals.isEmpty then [] else "" :: m.globals.map globalLine) ++
    (m.functions.zipIdx.flatMap fun (f, id) => m.functionLines id f) ++ m.attributeLines

/-- The text of a module. -/
def text (m : Module) : String :=
  String.join (m.lines.map fun line => line ++ "\n")

end LambdaArith.Module
