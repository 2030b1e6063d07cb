import LambdaArith.Proofs.Build
import LambdaArith.Proofs.Frame
import LambdaArith.Proofs.Scope

/-!
# Lowering stays in its frame

A builder is framed if its module is an earlier one with additions that are allowed. All work of
lowering keeps the builder framed, whether it succeeds or fails.
-/

namespace LambdaArith

/-- The builder has only added to a module, and adds instructions only where the insertion
point has been or in functions that are new. -/
structure Builder.Framed (base : Module) (point : Option InsertPoint) (b : Builder) : Prop where
  consistent : b.module.Consistent
  frame : base.Frame point b.module
  point_allowed : b.point = point ∨ ∃ p, b.point = some p ∧ base.functions.length ≤ p.function

/-- The builder has done nothing yet to its own module. -/
theorem Builder.framed_self {b : Builder} (hm : b.module.Consistent) :
    b.Framed b.module b.point :=
  ⟨hm, .refl b.module b.point, .inl rfl⟩

/-- A value that is a function is a new one. -/
def Value.NewIn (base : Module) (value : Value) : Prop :=
  ∀ id, value = .function id → base.functions.length ≤ id

namespace Build

open LambdaArith.Module

variable {base : Module} {point : Option InsertPoint}

/-- The insertion point, if there is one, is where instructions are allowed. -/
theorem requirePoint_keeps_framed (instruction : String) :
    Keeps (Builder.Framed base point) (Frame.Allows base point) (requirePoint instruction) := by
  refine Keeps.get.bind fun b hb => ?_
  split
  · exact Keeps.fail _
  · rename_i p hp
    refine Keeps.pure ?_
    rcases hb.point_allowed with heq | ⟨p', hp', hnew⟩
    · exact .inl (heq.symm.trans hp)
    · rw [hp, Option.some.injEq] at hp'
      exact .inr (hp' ▸ hnew)

/-- Recording an event leaves the frame alone. -/
theorem record_keeps_framed (event : Event) :
    Keeps (Builder.Framed base point) (fun _ => True) (record event) :=
  Keeps.record event fun _ hb => ⟨hb.consistent, hb.frame, hb.point_allowed⟩

/-- Adding an instruction where it is allowed leaves the frame alone, and its result is no
function. -/
theorem append_keeps_framed {p : InsertPoint} (hp : Frame.Allows base point p)
    (wanted : Option String) (action : Action) :
    Keeps (Builder.Framed base point) (Value.NewIn base)
      (apply fun m => m.append p wanted action) := by
  refine Keeps.apply fun b value m hb hok => ⟨⟨hb.consistent.append hok, ?_, hb.point_allowed⟩, ?_⟩
  · exact hb.frame.append hp hok
  · obtain ⟨_, _, _, _, _, rfl, _⟩ := append_eq_ok hok
    exact nofun

/-- Applying an operator leaves the frame alone. -/
theorem operation_keeps_framed (op : Operator) (lhs rhs : Value) :
    Keeps (Builder.Framed base point) (Value.NewIn base) (operation op lhs rhs) := by
  unfold operation
  split
  · split
    · exact Keeps.pure nofun
    · refine (requirePoint_keeps_framed _).bind fun p hp => ?_
      refine (record_keeps_framed _).bind fun _ _ => ?_
      exact append_keeps_framed hp _ _
  · exact Keeps.fail _

/-- Returning from a function leaves the frame alone. -/
theorem ret_keeps_framed (value : Value) :
    Keeps (Builder.Framed base point) (fun _ => True) (ret value) := by
  unfold ret
  split
  · refine (requirePoint_keeps_framed _).bind fun p hp => ?_
    refine (record_keeps_framed _).bind fun _ _ => ?_
    exact (append_keeps_framed hp _ _).bind fun _ _ => Keeps.pure trivial
  · exact Keeps.fail _

/-- Resolving a name gives a parameter or a global, and nothing happens. -/
theorem resolve_keeps_framed (name : String) :
    Keeps (Builder.Framed base point) (Value.NewIn base) (resolve name) := by
  refine Keeps.get.bind fun b _ => ?_
  split
  · exact Keeps.fail _
  · rename_i resolution hresolution
    refine Keeps.pure fun id hid => ?_
    have hnumeric := isNumeric_of_resolve hresolution
    rw [hid] at hnumeric
    cases hnumeric

/-- Giving a name to a new function, or making a global of anything else, leaves the frame
alone. -/
theorem define_keeps_framed (name : String) {value : Value} (hvalue : value.NewIn base) :
    Keeps (Builder.Framed base point) (Value.NewIn base) (define name value) := by
  refine Keeps.get.bind fun b _ => ?_
  split
  · rename_i hfunction
    cases value with
    | function id =>
      refine Keeps.bind (Q := fun _ => True) ?_ fun _ _ =>
        (record_keeps_framed _).bind fun _ _ => Keeps.pure hvalue
      refine Keeps.apply fun b' _ m hb hmap => ⟨?_, trivial⟩
      have hok := setName_of_map hmap
      have hframe := hb.frame.setName hb.consistent
        (fun _ => not_covers_of_value_eq (hvalue id rfl)) hok
      exact ⟨hb.consistent.setName hok, hframe, hb.point_allowed⟩
    | _ => cases hfunction
  · refine Keeps.bind (Q := Value.NewIn base) ?_ fun global hglobal =>
      (record_keeps_framed _).bind fun _ _ => Keeps.pure hglobal
    refine Keeps.apply fun b' value' m hb hok => ?_
    refine ⟨⟨hb.consistent.addGlobal hok, hb.frame.addGlobal hok, hb.point_allowed⟩, ?_⟩
    obtain ⟨_, _, _, rfl, _⟩ := addGlobal_eq_ok hok
    exact nofun

/-- Working in a new function leaves the frame alone. -/
theorem within_keeps_framed {α : Type} {Q : α → Prop} {entry : InsertPoint} {work : Build α}
    (hentry : base.functions.length ≤ entry.function)
    (hwork : Keeps (Builder.Framed base point) Q work) :
    Keeps (Builder.Framed base point) Q (within entry work) := by
  intro b hb
  have hinside : Builder.Framed base point { b with point := some entry } :=
    ⟨hb.consistent, hb.frame, .inr ⟨entry, rfl, hentry⟩⟩
  obtain ⟨hafter, hvalue⟩ := hwork _ hinside
  exact ⟨⟨hafter.consistent, hafter.frame, hb.point_allowed⟩, hvalue⟩

/-- Making a function leaves the frame alone, if the work for its body does. -/
theorem lambda_keeps_framed (parameters : List String) {body : Build Value}
    (hbody : Keeps (Builder.Framed base point) (Value.NewIn base) body) :
    Keeps (Builder.Framed base point) (Value.NewIn base) (lambda parameters body) := by
  unfold lambda
  split
  · exact Keeps.fail _
  · refine Keeps.bind (Q := fun function => base.functions.length ≤ function) ?_
      fun function hfunction => ?_
    · refine Keeps.apply fun b function m hb hok => ?_
      cases hok
      exact ⟨⟨hb.consistent.addFunction parameters, hb.frame.addFunction parameters,
        hb.point_allowed⟩, hb.frame.functions_le⟩
    · refine Keeps.bind (Q := fun entry => base.functions.length ≤ entry.function) ?_
        fun entry hentry => ?_
      · refine Keeps.apply fun b entry m hb hok => ?_
        refine ⟨⟨hb.consistent.appendBlock hok, hb.frame.appendBlock hfunction hok,
          hb.point_allowed⟩, ?_⟩
        obtain ⟨_, _, rfl, _⟩ := appendBlock_eq_ok hok
        exact hfunction
      · refine within_keeps_framed hentry (hbody.bind fun result _ => ?_)
        refine (ret_keeps_framed result).bind fun _ _ => Keeps.pure fun id hid => ?_
        cases hid
        exact hfunction

end Build

namespace Expr

open Build

variable {base : Module} {point : Option InsertPoint}

/-- Lowering an expression leaves the frame alone, also when it fails. A value that is a
function is a new one. -/
theorem lower_keeps_framed (e : Expr) :
    Keeps (Builder.Framed base point) (Value.NewIn base) e.lower := by
  induction e with
  | number x => exact Keeps.pure nofun
  | binary op lhs rhs ihl ihr =>
    exact ihl.bind fun left _ => ihr.bind fun right _ => operation_keeps_framed op left right
  | define name value ih => exact ih.bind fun _ hvalue => define_keeps_framed name hvalue
  | lambda parameters body ih => exact lambda_keeps_framed parameters ih
  | identifier name => exact resolve_keeps_framed name

/-- Lowering an expression of a program leaves the frame alone, also when it fails. -/
theorem lowerTopLevel_keeps_framed (e : Expr) :
    Keeps (Builder.Framed base point) (Value.NewIn base) e.lowerTopLevel := by
  unfold lowerTopLevel
  split
  · exact e.lower_keeps_framed
  · exact (lambda [] e).lower_keeps_framed

/-- Lowering a program leaves the frame alone, also when it fails. -/
theorem lowerEach_keeps_framed (exprs : List Expr) :
    Keeps (Builder.Framed base point) (fun _ => True) (lowerEach exprs) := by
  induction exprs with
  | nil => exact Keeps.pure trivial
  | cons e rest ih =>
    exact e.lowerTopLevel_keeps_framed.bind fun _ _ => ih.bind fun _ _ => Keeps.pure trivial

end Expr

end LambdaArith
