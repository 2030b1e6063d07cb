import LambdaArith.Event
import LambdaArith.Module.Edit

/-!
# Building a module

A builder holds the module that is being built and the point where instructions are added.
`Build` is the type of what works on a builder and may fail. A failure keeps what has been
done before it: who wants it undone has to take the module back to a checkpoint.
-/

namespace LambdaArith

/-- A module, the end of the block that is being filled if there is one, and what has
happened so far. -/
structure Builder where
  module : Module
  point : Option InsertPoint
  events : List Event
deriving Repr

/-- Work on a builder with a result of type `α`, or an error. -/
def Build (α : Type) : Type :=
  Builder → Except LoweringError α × Builder

namespace Build

/-- Work that changes nothing. -/
protected def pure {α : Type} (a : α) : Build α :=
  fun builder => (.ok a, builder)

/-- Work followed by other work, unless it fails. -/
protected def bind {α β : Type} (work : Build α) (next : α → Build β) : Build β :=
  fun builder =>
    match work builder with
    | (.ok a, after) => next a after
    | (.error error, after) => (.error error, after)

instance : Monad Build where
  pure := Build.pure
  bind := Build.bind

/-- Fails with an error and changes nothing. -/
def fail {α : Type} (error : LoweringError) : Build α :=
  fun builder => (.error error, builder)

/-- The builder as it is now. -/
def get : Build Builder :=
  fun builder => (.ok builder, builder)

/-- Records an event. -/
def record (event : Event) : Build Unit :=
  fun builder => (.ok (), { builder with events := builder.events ++ [event] })

/-- Applies an operation of the backend to the module. -/
def apply {α : Type} (operation : Module → Except BackendError (α × Module)) : Build α :=
  fun builder =>
    match operation builder.module with
    | .ok (a, m) => (.ok a, { builder with module := m })
    | .error error => (.error (.backend error), builder)

end Build

namespace Builder

/-- A builder for a module, with no place for instructions yet. -/
def ofModule (m : Module) : Builder :=
  ⟨m, none, []⟩

/-- Does something with the insertion point moved to `point`, and moves it back where it has
been. -/
def within {α : Type} (builder : Builder) (point : InsertPoint) (work : Builder → α × Builder) :
    α × Builder :=
  let (result, after) := work { builder with point := some point }
  (result, { after with point := builder.point })

end Builder

namespace Build

/-- Works with the insertion point moved to `point`, and moves it back even after a
failure. -/
def within {α : Type} (point : InsertPoint) (work : Build α) : Build α :=
  fun builder => builder.within point work

/-- The insertion point, which the instruction with this name needs. -/
def requirePoint (instruction : String) : Build InsertPoint := do
  match (← get).point with
  | none => fail (.backend (.noInsertionPoint instruction))
  | some point => return point

/-- Applies an operator to two operands. Two constants are worth a constant and leave the
module as it is; otherwise an instruction is added. -/
def operation (op : Operator) (lhs rhs : Value) : Build Value :=
  if lhs.isNumeric && rhs.isNumeric then
    match lhs, rhs with
    | .constant x, .constant y => return .constant (op.apply x y)
    | _, _ => do
      let point ← requirePoint op.resultName
      record (.emittingOperation op point)
      apply fun m => m.append point (some op.resultName) (.compute op lhs rhs)
  else fail (.backend .notANumber)

/-- Ends the block with the value that the function returns. -/
def ret (value : Value) : Build Unit :=
  if value.isNumeric then do
    let point ← requirePoint "ret"
    record (.emittingReturn point)
    let _ ← apply fun m => m.append point none (.ret value)
  else fail (.backend .notANumber)

end Build

end LambdaArith
