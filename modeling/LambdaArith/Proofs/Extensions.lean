import LambdaArith.Proofs.Calls

/-!
# Modules that have been extended

A module extends another if it has come from it by additions alone: everything older is as it has
been, and the names of the two agree on it. Each operation leaves an extension as long as what it
changes is new, and so do calls of sessions and rollbacks to a later checkpoint.
-/

namespace LambdaArith

/-- A later checkpoint is one with no fewer globals and no fewer functions. -/
instance : LE Checkpoint where
  le earlier later := earlier.globals ≤ later.globals ∧ earlier.functions ≤ later.functions

instance (earlier later : Checkpoint) : Decidable (earlier ≤ later) :=
  inferInstanceAs (Decidable (_ ∧ _))

/-- The insertion point, if there is one, is in a function that has been added since. -/
def Checkpoint.Precedes (mark : Checkpoint) (point : Option InsertPoint) : Prop :=
  ∀ p ∈ point, mark.functions ≤ p.function

namespace Module

/-- A module has come from another by additions alone. -/
structure Extends (base m : Module) : Prop where
  consistent : m.Consistent
  frame : base.Frame none m

/-- A rollback to a later checkpoint drops nothing that is in the frame. -/
theorem Frame.rollback {base m : Module} {point : Option InsertPoint} (h : base.Frame point m)
    {mark : Checkpoint} (hmark : base.checkpoint ≤ mark) : base.Frame point (m.rollback mark) where
  name_eq := h.name_eq
  target_eq := h.target_eq
  globals_prefix := List.prefix_take_iff.mpr ⟨h.globals_prefix, hmark.1⟩
  functions_le := by
    have hle : base.functions.length ≤ mark.functions := hmark.2
    have hlength := h.functions_le
    simp only [Module.rollback, List.length_take]
    omega
  function_grown := fun id f hf => by
    have hlt := (List.getElem?_eq_some_iff.mp hf).1
    have hle : base.functions.length ≤ mark.functions := hmark.2
    obtain ⟨g, hg, hgrown⟩ := h.function_grown id f hf
    refine ⟨g, ?_, hgrown⟩
    simp only [Module.rollback]
    rw [List.getElem?_take_of_lt (by omega), hg]
  lookup?_iff := fun name symbol hcovers => by
    have hkept : mark.covers symbol = true := by
      cases symbol with
      | global id =>
        exact decide_eq_true (Nat.lt_of_lt_of_le (of_decide_eq_true hcovers) hmark.1)
      | function id =>
        exact decide_eq_true (Nat.lt_of_lt_of_le (of_decide_eq_true hcovers) hmark.2)
    rw [lookup?_rollback_eq_some_iff, h.lookup?_iff name symbol hcovers]
    simp only [hkept, and_true]

namespace Extends

variable {base m : Module}

/-- Nothing has been added yet. -/
theorem refl (hbase : base.Consistent) : base.Extends base :=
  ⟨hbase, .refl base none⟩

/-- A module that has been extended stands at a later checkpoint. -/
theorem checkpoint_le (h : base.Extends m) : base.checkpoint ≤ m.checkpoint :=
  ⟨h.frame.globals_prefix.length_le, h.frame.functions_le⟩

/-- A rollback to a later checkpoint leaves an extension. -/
theorem rollback (h : base.Extends m) {mark : Checkpoint} (hmark : base.checkpoint ≤ mark) :
    base.Extends (m.rollback mark) :=
  ⟨h.consistent.rollback mark, h.frame.rollback hmark⟩

/-- A builder for an extension that adds instructions to new functions stays in the frame. -/
theorem framed {b : Builder} (h : base.Extends b.module)
    (hpoint : base.checkpoint.Precedes b.point) : b.Framed base none := by
  refine ⟨h.consistent, h.frame, ?_⟩
  cases hb : b.point with
  | none => exact .inl rfl
  | some p => exact .inr ⟨p, rfl, hpoint p hb⟩

/-- Adding a global leaves an extension. -/
theorem addGlobal (h : base.Extends m) {after : Module} {name : String} {initializer value : Value}
    (hok : m.addGlobal name initializer = .ok (value, after)) : base.Extends after :=
  ⟨h.consistent.addGlobal hok, h.frame.addGlobal hok⟩

/-- Adding a function leaves an extension. -/
theorem addFunction (h : base.Extends m) (parameters : List String) :
    base.Extends (m.addFunction parameters).2 :=
  ⟨h.consistent.addFunction parameters, h.frame.addFunction parameters⟩

/-- Adding a block to a new function leaves an extension. -/
theorem appendBlock (h : base.Extends m) {function : Nat}
    (hnew : base.functions.length ≤ function) {after : Module} {label : String}
    {entry : InsertPoint} (hok : m.appendBlock function label = .ok (entry, after)) :
    base.Extends after :=
  ⟨h.consistent.appendBlock hok, h.frame.appendBlock hnew hok⟩

/-- Giving a name to what is new leaves an extension. -/
theorem setName (h : base.Extends m) {value : Value}
    (hnew : ∀ symbol : Symbol, symbol.value = value → base.checkpoint.covers symbol = false)
    {after : Module} {name : String} (hok : m.setName value name = .ok after) :
    base.Extends after :=
  ⟨h.consistent.setName hok, h.frame.setName h.consistent hnew hok⟩

/-- Adding an instruction to a new function leaves an extension. -/
theorem append (h : base.Extends m) {p : InsertPoint} (hnew : base.functions.length ≤ p.function)
    {after : Module} {wanted : Option String} {action : Action} {value : Value}
    (hok : m.append p wanted action = .ok (value, after)) : base.Extends after :=
  ⟨h.consistent.append hok, h.frame.append (.inr hnew) hok⟩

/-- Work that stays in the frame leaves an extension. -/
theorem of_framed {b : Builder} (h : b.Framed base none) : base.Extends b.module :=
  ⟨h.consistent, h.frame⟩

/-- Lowering a program leaves an extension, as what a failure drops is new. -/
theorem lowerAll (h : base.Extends m) (exprs : List Expr) :
    base.Extends (m.lowerAll exprs).module := by
  have hstart : (Builder.ofModule m).Framed base none := h.framed nofun
  have hlowered := of_framed (Expr.lowerEach_keeps_framed exprs _ hstart).1
  unfold Module.lowerAll
  split
  · rename_i values b heq
    rw [heq] at hlowered
    exact hlowered
  · rename_i error b heq
    rw [heq] at hlowered
    exact hlowered.rollback h.checkpoint_le

/-- A call leaves an extension. -/
theorem answer (h : base.Extends m) (call : Call) : base.Extends (m.answer call).2 := by
  cases call with
  | lowerAll exprs => exact h.lowerAll exprs
  | compile source =>
    have hmodule : (m.answer (.compile source)).2 = (m.compile source).module := rfl
    rw [hmodule]
    rcases m.compile_cases source with ⟨_, _, hsame, _⟩ | ⟨exprs, _, _, hlowered⟩
    · rw [hsame]
      exact h
    · rw [hlowered]
      exact h.lowerAll exprs

end Extends

end Module

end LambdaArith
