import LambdaArith.Module

/-!
# Changes to a module

The operations that make a module grow, give names in it and take it back to an earlier
state. Each of them checks everything first: a refusal comes without a new module.
-/

namespace LambdaArith

namespace Func

/-- Adds an empty block. -/
def appendBlock (f : Func) (label : String) : Func :=
  { f with blocks := f.blocks ++ [⟨label, []⟩] }

/-- Adds an instruction at the end of the block with this index. The result gets a free name
if it asks for one. -/
def append (f : Func) (block : Nat) (wanted : Option String) (action : Action) : Func :=
  let (name, taken) := match wanted with
    | none => (none, f.localNames)
    | some base =>
      let (name, taken) := LocalName.reserve f.localNames base
      (some name, taken)
  { f with
    blocks := f.blocks.modify block fun b =>
      { b with instructions := b.instructions ++ [f.instructions.length] }
    instructions := f.instructions ++ [⟨name, action⟩]
    localNames := taken }

end Func

namespace Module

/-- Sets the machine that the module is compiled for. -/
def setTarget (m : Module) (target : Target) : Module :=
  { m with target := some target }

/-- The double that a value has as the initializer of the global `name`: a constant, or that
of another global, which is copied. -/
def initialValue (m : Module) (name : String) : Value → Except BackendError Float
  | .constant x => .ok x
  | .global id =>
    match m.initializer? id with
    | some x => .ok x
    | none => .error (.dangling "global")
  | _ => .error (.nonConstantInitializer name)

/-- Adds a global under a name that nothing else has. -/
def addGlobal (m : Module) (name : String) (initializer : Value) :
    Except BackendError (Value × Module) :=
  match m.initialValue name initializer with
  | .error error => .error error
  | .ok x =>
    if (m.lookup? name).isSome then .error (.duplicateSymbol name)
    else
      let id := m.globals.length
      .ok (.global id,
        { m with
          symbols := m.symbols.insert name (.global id)
          globals := m.globals ++ [⟨name, x⟩] })

/-- Adds a function without a name and without blocks. -/
def addFunction (m : Module) (parameters : List String) : Nat × Module :=
  (m.functions.length, { m with functions := m.functions ++ [Func.declare parameters] })

/-- Adds an empty block to a function. -/
def appendBlock (m : Module) (function : Nat) (label : String) :
    Except BackendError (InsertPoint × Module) :=
  match m.functions[function]? with
  | none => .error (.dangling "function")
  | some f =>
    .ok (⟨function, f.blocks.length⟩,
      { m with functions := m.functions.set function (f.appendBlock label) })

/-- The symbol that a value is, if it can have a name. -/
def symbolOf (m : Module) : Value → Except BackendError Symbol
  | .global id => if id < m.globals.length then .ok (.global id) else .error (.dangling "symbol")
  | .function id =>
    if id < m.functions.length then .ok (.function id) else .error (.dangling "symbol")
  | _ => .error .unnameable

/-- The symbols without the name of one of them, if it has one. -/
def released (m : Module) (symbol : Symbol) : SymbolTable :=
  match m.valueName? symbol.value with
  | none => m.symbols
  | some previous => m.symbols.erase previous

/-- Gives a symbol a name; the one that it had is free again. -/
def rename (m : Module) (symbol : Symbol) (name : String) : Module :=
  let symbols := (m.released symbol).insert name symbol
  match symbol with
  | .global id =>
    { m with
      symbols := symbols
      globals := m.globals.modify id fun g => { g with name := name } }
  | .function id =>
    { m with
      symbols := symbols
      functions := m.functions.modify id fun f => { f with name := some name } }

/-- Gives a global or a function a name that nothing else has. -/
def setName (m : Module) (value : Value) (name : String) : Except BackendError Module :=
  match m.symbolOf value with
  | .error error => .error error
  | .ok symbol =>
    match m.lookup? name with
    | some owner => if owner = symbol then .ok m else .error (.duplicateSymbol name)
    | none => .ok (m.rename symbol name)

/-- Adds an instruction at the end of a block that has no terminator yet. -/
def append (m : Module) (point : InsertPoint) (wanted : Option String) (action : Action) :
    Except BackendError (Value × Module) :=
  match m.functions[point.function]? with
  | none => .error (.dangling "function")
  | some f =>
    match f.blocks[point.block]? with
    | none => .error (.dangling "block")
    | some block =>
      if f.isTerminated block then .error .blockTerminated
      else .ok (.result point.function f.instructions.length,
        { m with functions := m.functions.set point.function (f.append point.block wanted action) })

/-- Drops every global and every function that has been added since a checkpoint, and their
names. What is older stays as it is now. -/
def rollback (m : Module) (checkpoint : Checkpoint) : Module :=
  { m with
    symbols := m.symbols.filter fun entry => checkpoint.covers entry.2
    globals := m.globals.take checkpoint.globals
    functions := m.functions.take checkpoint.functions }

end Module

end LambdaArith
