import LambdaArith.Proofs.Invariant
import LambdaArith.Proofs.Names

/-!
# What can be done to a module from outside

A module and a builder are used through a fixed set of operations, here as data. The values,
places and checkpoints that they are given need not exist in the module. A module is reachable
if such operations make it out of an empty one.
-/

namespace LambdaArith

/-- An operation on a module, or on a builder for it. -/
inductive Operation where
  | setTarget (target : Target)
  | addGlobal (name : String) (initializer : Value)
  | addFunction (parameters : List String)
  | appendBlock (function : Nat) (label : String)
  | setName (value : Value) (name : String)
  | checkpoint
  | rollback (checkpoint : Checkpoint)
  | positionAtEnd (point : InsertPoint)
  | clearPosition
  | compute (op : Operator) (lhs rhs : Value)
  | ret (value : Value)

/-- What an operation answers when it is not refused. -/
inductive Answer where
  | done
  | value (value : Value)
  | function (id : Nat)
  | point (point : InsertPoint)
  | checkpoint (checkpoint : Checkpoint)

namespace Build

/-- Moves the insertion point, or takes it away. -/
def moveTo (point : Option InsertPoint) : Build Unit :=
  fun builder => (.ok (), { builder with point := point })

end Build

namespace Operation

/-- Does an operation. -/
def perform : Operation → Build Answer
  | setTarget target => do
    Build.apply fun m => .ok ((), m.setTarget target)
    return .done
  | addGlobal name initializer => do
    return .value (← Build.apply fun m => m.addGlobal name initializer)
  | addFunction parameters => do
    return .function (← Build.apply fun m => .ok (m.addFunction parameters))
  | appendBlock function label => do
    return .point (← Build.apply fun m => m.appendBlock function label)
  | setName value name => do
    Build.apply fun m => (m.setName value name).map fun m => ((), m)
    return .done
  | checkpoint => do
    return .checkpoint (← Build.get).module.checkpoint
  | rollback mark => do
    Build.apply fun m => .ok ((), m.rollback mark)
    return .done
  | positionAtEnd point => do
    Build.moveTo (some point)
    return .done
  | clearPosition => do
    Build.moveTo none
    return .done
  | compute op lhs rhs => do
    return .value (← Build.operation op lhs rhs)
  | ret value => do
    Build.ret value
    return .done

/-- The builder after operations in order, refused ones included. -/
def performAll (operations : List Operation) (b : Builder) : Builder :=
  operations.foldl (fun b operation => (operation.perform b).2) b

end Operation

/-- The modules that operations make out of empty ones. -/
def Module.Reachable (m : Module) : Prop :=
  ∃ name operations,
    m = (Operation.performAll operations (Builder.ofModule (.empty name))).module

/-- Moving the insertion point keeps the properties of the module. -/
theorem Build.moveTo_keeps {P : Module → Prop} (point : Option InsertPoint) :
    Keeps (Builder.Holds P) (fun _ => True) (moveTo point) :=
  fun _ hb => ⟨hb, fun _ _ => trivial⟩

namespace Operation

open Build

variable {P : Module → Prop}

/-- Every operation keeps the invariants of modules, refused or not. -/
theorem perform_keeps (hP : Module.Invariant P) (operation : Operation) :
    Keeps (Builder.Holds P) (fun _ => True) operation.perform := by
  have hdone : ∀ answer : Answer, Keeps (Builder.Holds P) (fun _ => True) (pure answer) :=
    fun _ => Keeps.pure trivial
  cases operation with
  | setTarget target =>
    refine Keeps.bind (apply_keeps fun _ _ _ hm hok => ?_) fun _ _ => hdone _
    cases hok
    exact hP.setTarget target hm
  | addGlobal name initializer =>
    exact Keeps.bind (apply_keeps fun _ _ _ hm hok => hP.addGlobal hm hok) fun _ _ => hdone _
  | addFunction parameters =>
    refine Keeps.bind (apply_keeps fun _ _ _ hm hok => ?_) fun _ _ => hdone _
    cases hok
    exact hP.addFunction parameters hm
  | appendBlock function label =>
    exact Keeps.bind (apply_keeps fun _ _ _ hm hok => hP.appendBlock hm hok) fun _ _ => hdone _
  | setName value name =>
    refine Keeps.bind (apply_keeps fun _ _ _ hm hmap => ?_) fun _ _ => hdone _
    exact hP.setName hm (Module.setName_of_map hmap)
  | checkpoint => exact Keeps.get.bind fun _ _ => hdone _
  | rollback mark =>
    refine Keeps.bind (apply_keeps fun _ _ _ hm hok => ?_) fun _ _ => hdone _
    cases hok
    exact hP.rollback mark hm
  | positionAtEnd point => exact (moveTo_keeps _).bind fun _ _ => hdone _
  | clearPosition => exact (moveTo_keeps _).bind fun _ _ => hdone _
  | compute op lhs rhs => exact (operation_keeps hP op lhs rhs).bind fun _ _ => hdone _
  | ret value => exact (ret_keeps hP value).bind fun _ _ => hdone _

/-- Operations in any number and order keep the invariants of modules. -/
theorem performAll_keeps (hP : Module.Invariant P) (operations : List Operation) {b : Builder}
    (hb : P b.module) : P (performAll operations b).module := by
  induction operations generalizing b with
  | nil => exact hb
  | cons operation rest ih => exact ih (operation.perform_keeps hP b hb).1

end Operation

/-- That the table of symbols and the names agree is an invariant. -/
theorem Module.consistent_invariant : Module.Invariant Module.Consistent where
  setTarget := fun target hm => hm.setTarget target
  addGlobal := fun hm hok => hm.addGlobal hok
  addFunction := fun parameters hm => hm.addFunction parameters
  appendBlock := fun hm hok => hm.appendBlock hok
  setName := fun hm hok => hm.setName hok
  append := fun hm _ hok => hm.append hok
  rollback := fun checkpoint hm => hm.rollback checkpoint

/-- In every reachable module the table of symbols and the names agree. -/
theorem Module.Reachable.consistent {m : Module} (hm : m.Reachable) : m.Consistent := by
  obtain ⟨name, operations, rfl⟩ := hm
  exact Operation.performAll_keeps consistent_invariant operations (consistent_empty name)

end LambdaArith
