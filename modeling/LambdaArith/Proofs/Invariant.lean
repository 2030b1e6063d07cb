import LambdaArith.Proofs.Steps

/-!
# Invariants of modules

A module is changed by a few edits only, and instructions come to it through a builder, which looks
at their operands first. What all of these keep is an invariant. Whatever is done to a module by way
of a builder keeps the invariants of modules, whether it succeeds or fails.
-/

namespace LambdaArith

/-- An instruction that a builder adds: no operand is a function, and the operands of an operator
are not both constants. -/
def Action.Emittable : Action → Prop
  | compute _ lhs rhs =>
    lhs.isNumeric = true ∧ rhs.isNumeric = true ∧
      ¬ (lhs.isConstant = true ∧ rhs.isConstant = true)
  | ret value => value.isNumeric = true

/-- A property of modules that every edit keeps. -/
structure Module.Invariant (P : Module → Prop) : Prop where
  setTarget : ∀ {m : Module} (target : Target), P m → P (m.setTarget target)
  addGlobal : ∀ {m after : Module} {name : String} {initializer value : Value}, P m →
    m.addGlobal name initializer = .ok (value, after) → P after
  addFunction : ∀ {m : Module} (parameters : List String), P m → P (m.addFunction parameters).2
  appendBlock : ∀ {m after : Module} {function : Nat} {label : String} {point : InsertPoint}, P m →
    m.appendBlock function label = .ok (point, after) → P after
  setName : ∀ {m after : Module} {value : Value} {name : String}, P m →
    m.setName value name = .ok after → P after
  append : ∀ {m after : Module} {point : InsertPoint} {wanted : Option String} {action : Action}
    {value : Value}, P m → action.Emittable →
    m.append point wanted action = .ok (value, after) → P after
  rollback : ∀ {m : Module} (checkpoint : Checkpoint), P m → P (m.rollback checkpoint)

/-- The module of the builder has a property. -/
def Builder.Holds (P : Module → Prop) (b : Builder) : Prop :=
  P b.module

namespace Build

open LambdaArith.Module

variable {α : Type} {P : Module → Prop}

/-- An operation of the backend keeps a property of modules if it does so when not refused. -/
theorem apply_keeps {operation : Module → Except BackendError (α × Module)}
    (h : ∀ m a after, P m → operation m = .ok (a, after) → P after) :
    Keeps (Builder.Holds P) (fun _ => True) (apply operation) :=
  Keeps.apply fun b a m hb hok => ⟨h b.module a m hb hok, trivial⟩

/-- Recording an event keeps the properties of the module. -/
theorem record_keeps (event : Event) :
    Keeps (Builder.Holds P) (fun _ => True) (record event) :=
  Keeps.record event fun _ hb => hb

/-- Asking for the insertion point keeps everything. -/
theorem requirePoint_keeps {I : Builder → Prop} (instruction : String) :
    Keeps I (fun _ => True) (requirePoint instruction) := by
  refine Keeps.bind (Keeps.get.weaken fun _ _ => trivial) fun b _ => ?_
  split
  · exact Keeps.fail _
  · exact Keeps.pure trivial

/-- Looking up an identifier keeps everything. -/
theorem resolve_keeps {I : Builder → Prop} (name : String) :
    Keeps I (fun _ => True) (resolve name) := by
  refine Keeps.bind (Keeps.get.weaken fun _ _ => trivial) fun b _ => ?_
  split
  · exact Keeps.fail _
  · exact Keeps.pure trivial

/-- Working with the insertion point moved keeps the properties of the module. -/
theorem within_keeps {Q : α → Prop} (point : InsertPoint) {work : Build α}
    (hwork : Keeps (Builder.Holds P) Q work) : Keeps (Builder.Holds P) Q (within point work) :=
  fun b hb => hwork { b with point := some point } hb

/-- Applying an operator adds an instruction that a builder may add, if any. -/
theorem operation_keeps (hP : Invariant P) (op : Operator) (lhs rhs : Value) :
    Keeps (Builder.Holds P) (fun _ => True) (operation op lhs rhs) := by
  unfold operation
  split
  · rename_i hnumeric
    obtain ⟨hl, hr⟩ := Bool.and_eq_true_iff.mp hnumeric
    split
    · exact Keeps.pure trivial
    · rename_i hconstant
      have hadd : (Action.compute op lhs rhs).Emittable := by
        refine ⟨hl, hr, fun hboth => ?_⟩
        cases lhs <;> cases hboth.1
        cases rhs <;> cases hboth.2
        exact hconstant _ _ rfl rfl
      refine (requirePoint_keeps _).bind fun point _ => (record_keeps _).bind fun _ _ => ?_
      exact apply_keeps fun _ _ _ hm hok => hP.append hm hadd hok
  · exact Keeps.fail _

/-- Returning adds an instruction that a builder may add. -/
theorem ret_keeps (hP : Invariant P) (value : Value) :
    Keeps (Builder.Holds P) (fun _ => True) (ret value) := by
  unfold ret
  split
  · rename_i hnumeric
    have hadd : (Action.ret value).Emittable := hnumeric
    refine (requirePoint_keeps _).bind fun point _ => (record_keeps _).bind fun _ _ => ?_
    refine Keeps.bind (apply_keeps fun _ _ _ hm hok => ?_) fun _ _ => Keeps.pure trivial
    exact hP.append hm hadd hok
  · exact Keeps.fail _

/-- Giving a name to a value keeps the invariants. -/
theorem define_keeps (hP : Invariant P) (name : String) (value : Value) :
    Keeps (Builder.Holds P) (fun _ => True) (define name value) := by
  refine Keeps.bind (Keeps.get.weaken fun _ _ => trivial) fun b _ => ?_
  split
  · refine Keeps.bind (apply_keeps fun _ _ _ hm hmap => ?_) fun _ _ =>
      (record_keeps _).bind fun _ _ => Keeps.pure trivial
    exact hP.setName hm (setName_of_map hmap)
  · refine Keeps.bind (apply_keeps fun _ _ _ hm hok => ?_) fun _ _ =>
      (record_keeps _).bind fun _ _ => Keeps.pure trivial
    exact hP.addGlobal hm hok

/-- Making a function keeps the invariants, if the work for its body does. -/
theorem lambda_keeps (hP : Invariant P) (parameters : List String) {body : Build Value}
    (hbody : Keeps (Builder.Holds P) (fun _ => True) body) :
    Keeps (Builder.Holds P) (fun _ => True) (lambda parameters body) := by
  unfold lambda
  split
  · exact Keeps.fail _
  · refine Keeps.bind (apply_keeps fun _ _ _ hm hok => ?_) fun function _ => ?_
    · cases hok
      exact hP.addFunction parameters hm
    refine Keeps.bind (apply_keeps fun _ _ _ hm hok => hP.appendBlock hm hok) fun entry _ => ?_
    refine within_keeps entry (hbody.bind fun result _ => ?_)
    exact (ret_keeps hP result).bind fun _ _ => Keeps.pure trivial

end Build

namespace Expr

open Build

variable {P : Module → Prop}

/-- Lowering an expression keeps the invariants of modules, wherever the insertion point is. -/
theorem lower_keeps (hP : Module.Invariant P) (e : Expr) :
    Keeps (Builder.Holds P) (fun _ => True) e.lower := by
  induction e with
  | number x => exact Keeps.pure trivial
  | binary op lhs rhs ihl ihr =>
    exact ihl.bind fun left _ => ihr.bind fun right _ => operation_keeps hP op left right
  | define name value ih => exact ih.bind fun v _ => define_keeps hP name v
  | lambda parameters body ih => exact lambda_keeps hP parameters ih
  | identifier name => exact resolve_keeps name

/-- Lowering a program keeps the invariants of modules. -/
theorem lowerEach_keeps (hP : Module.Invariant P) (exprs : List Expr) :
    Keeps (Builder.Holds P) (fun _ => True) (lowerEach exprs) := by
  induction exprs with
  | nil => exact Keeps.pure trivial
  | cons e rest ih =>
    have hfirst : Keeps (Builder.Holds P) (fun _ => True) e.lowerTopLevel := by
      unfold lowerTopLevel
      split
      · exact e.lower_keeps hP
      · exact (lambda [] e).lower_keeps hP
    exact hfirst.bind fun _ _ => ih.bind fun _ _ => Keeps.pure trivial

end Expr

end LambdaArith
