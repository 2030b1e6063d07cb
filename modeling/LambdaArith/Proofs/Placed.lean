import LambdaArith.Proofs.Derivation
import LambdaArith.Proofs.Described
import LambdaArith.Proofs.Framed
import LambdaArith.Proofs.OpenFunction

/-!
# Where expressions are lowered

An expression that is worth a double is lowered outside of functions or at the end of the only
block of a new function. Successful lowering goes on at the same place.
-/

namespace LambdaArith

namespace Builder

/-- The builder is outside of functions, or at the end of the only block of an open function
with these parameters. -/
inductive Placed (b : Builder) (function : Nat) (parameters : List String) : Prop
  | outside : b.point = none → parameters = [] → Placed b function parameters
  | inside {f : Func} : b.point = some ⟨function, 0⟩ →
      b.module.functions[function]? = some f → f.parameters = parameters → f.Open →
      Placed b function parameters

variable {b after : Builder} {function : Nat} {parameters : List String}

/-- The parameters that an identifier is looked up among. -/
theorem Placed.parameterNames_eq (h : b.Placed function parameters) :
    b.module.parameterNames (b.point.map InsertPoint.function) = parameters := by
  cases h with
  | outside hpoint hparameters =>
    rw [hpoint, hparameters]
    rfl
  | inside hpoint hf hparameters _ =>
    rw [hpoint]
    simp only [Option.map_some, Module.parameterNames, hf, hparameters]

/-- The function at whose end the builder is exists. -/
theorem Placed.lt_length (h : b.Placed function parameters)
    (hpoint : b.point = some ⟨function, 0⟩) : function < b.module.functions.length := by
  cases h with
  | outside hnone _ =>
    rw [hnone] at hpoint
    cases hpoint
  | inside _ hf _ _ => exact (List.getElem?_eq_some_iff.mp hf).1

/-- The place is the same as long as the function is. -/
theorem Placed.of_getElem?_eq (h : b.Placed function parameters) (hpoint : after.point = b.point)
    (hsame : ∀ f, b.point = some ⟨function, 0⟩ → b.module.functions[function]? = some f →
      after.module.functions[function]? = some f) : after.Placed function parameters := by
  cases h with
  | outside hnone hparameters => exact .outside (hpoint.trans hnone) hparameters
  | inside hsome hf hparameters hopen =>
    exact .inside (hpoint.trans hsome) (hsame _ hsome hf) hparameters hopen

/-- The place is the same as long as functions are. -/
theorem Placed.of_eq (h : b.Placed function parameters) (hpoint : after.point = b.point)
    (hfunctions : after.module.functions = b.module.functions) :
    after.Placed function parameters :=
  h.of_getElem?_eq hpoint fun _ _ hf => hfunctions ▸ hf

/-- An instruction comes to the end of the function, and is its result. -/
theorem Placed.append_eq_ok (h : b.Placed function parameters) {p : InsertPoint}
    (hp : b.point = some p) {wanted : Option String} {action : Action} {value : Value}
    {m : Module} (happend : b.module.append p wanted action = .ok (value, m)) :
    ∃ f, p = ⟨function, 0⟩ ∧ b.module.functions[function]? = some f ∧
      f.parameters = parameters ∧ f.Open ∧ value = .result function f.instructions.length ∧
      m.globals = b.module.globals ∧ m.symbols = b.module.symbols ∧
      m.functions[function]? = some (f.append 0 wanted action) := by
  cases h with
  | outside hnone _ =>
    rw [hnone] at hp
    cases hp
  | @inside f hsome hf hparameters hopen =>
    rw [hsome, Option.some.injEq] at hp
    subst hp
    obtain ⟨g, _, hg, _, _, rfl, rfl⟩ := Module.append_eq_ok happend
    rw [hf, Option.some.injEq] at hg
    subst hg
    have hlt := (List.getElem?_eq_some_iff.mp hf).1
    exact ⟨f, rfl, hf, hparameters, hopen, rfl, rfl, rfl, List.getElem?_set_self hlt⟩

/-- An instruction that does not end the block leaves the builder at its end. -/
theorem Placed.advance (h : b.Placed function parameters) {p : InsertPoint}
    (hp : b.point = some p) {wanted : Option String} {action : Action} {value : Value}
    {m : Module} (happend : b.module.append p wanted action = .ok (value, m))
    (haction : action.isTerminator = false) (event : Event) :
    (b.advance m event).Placed function parameters := by
  obtain ⟨f, rfl, _, hparameters, hopen, _, _, _, hf⟩ := h.append_eq_ok hp happend
  exact .inside hp hf hparameters (hopen.append wanted haction)

/-- The module is consistent at the beginning of a new function. -/
theorem consistent_enter (hm : b.module.Consistent) (parameters : List String) :
    (b.enter parameters).module.Consistent :=
  (hm.addFunction parameters).appendBlock (b.module.appendBlock_addFunction parameters)

/-- The builder at the beginning of a new function, whose parameters differ from each other. -/
theorem placed_enter (b : Builder) (h : parameters.Nodup) :
    (b.enter parameters).Placed b.module.functions.length parameters := by
  refine .inside (f := (Func.declare parameters).appendBlock "entry") rfl ?_
    (Func.parameters_declare h) (Func.open_declare parameters)
  simp [enter, Module.openFunction]

end Builder

namespace Module

/-- A function is no double. -/
theorem isNumeric_of_isFunction {m : Module} {value : Value} (h : m.isFunction value = true) :
    value.isNumeric = false := by
  cases value with
  | function id => rfl
  | _ => cases h

/-- A global is initialized with a double. -/
theorem isNumeric_of_addGlobal {m after : Module} {name : String} {initializer value : Value}
    (h : m.addGlobal name initializer = .ok (value, after)) : initializer.isNumeric = true := by
  obtain ⟨x, hinitial, _⟩ := addGlobal_eq_ok h
  rcases initialValue_eq_ok.mp hinitial with rfl | ⟨id, rfl, _⟩
  · rfl
  · rfl

end Module

namespace Lowers

variable {b after : Builder} {e : Expr} {value : Value}

/-- Lowering comes back to the insertion point. -/
theorem point_eq (h : Lowers b e value after) : after.point = b.point := by
  induction h with
  | number => rfl
  | fold _ _ _ ihl ihr => rw [ihr, ihl]
  | emit _ _ _ _ _ _ _ _ ihl ihr => exact ihr.trans ihl
  | named _ _ _ ih => exact ih
  | defined _ _ _ ih => exact ih
  | lambda => rfl
  | identifier => rfl

/-- Lowering leaves the frame alone. -/
theorem framed (h : Lowers b e value after) {base : Module} {point : Option InsertPoint}
    (hb : b.Framed base point) : after.Framed base point ∧ value.NewIn base := by
  obtain ⟨hafter, hvalue⟩ := e.lower_keeps_framed b hb
  rw [h.lower_eq] at hafter hvalue
  exact ⟨hafter, hvalue value rfl⟩

/-- Lowering keeps the module consistent. -/
theorem consistent (h : Lowers b e value after) (hb : b.module.Consistent) :
    after.module.Consistent :=
  (h.framed (Builder.framed_self hb)).1.consistent

/-- Lowering only adds globals. -/
theorem globals_prefix (h : Lowers b e value after) (hb : b.module.Consistent) :
    b.module.globals <+: after.module.globals :=
  (h.framed (Builder.framed_self hb)).1.frame.globals_prefix

/-- Lowering an expression to a double goes on at the same place. -/
theorem placed (h : Lowers b e value after) (hvalue : value.isNumeric = true) {function : Nat}
    {parameters : List String} (hb : b.Placed function parameters) :
    after.Placed function parameters := by
  induction h with
  | number => exact hb
  | fold _ _ _ ihl ihr => exact ihr rfl (ihl rfl hb)
  | emit op _ _ hl hr _ hpoint happend ihl ihr =>
    exact (ihr hr (ihl hl hb)).advance hpoint happend rfl _
  | named _ hfunction _ _ =>
    rw [Module.isNumeric_of_isFunction hfunction] at hvalue
    cases hvalue
  | defined _ _ hadd ih =>
    have hnumeric := Module.isNumeric_of_addGlobal hadd
    obtain ⟨x, _, _, _, rfl⟩ := Module.addGlobal_eq_ok hadd
    exact (ih hnumeric hb).of_eq rfl rfl
  | lambda => cases hvalue
  | identifier => exact hb

/-- An expression becomes a double exactly if it does not end in a lambda. -/
theorem isNumeric_eq (h : Lowers b e value after) : value.isNumeric = e.lambda?.isNone := by
  induction h with
  | number => rfl
  | fold => rfl
  | lambda => rfl
  | emit _ _ _ _ _ _ _ happend =>
    obtain ⟨_, _, _, _, _, rfl, _⟩ := Module.append_eq_ok happend
    rfl
  | named _ _ _ ih => exact ih
  | defined _ _ hadd ih =>
    have hnumeric := Module.isNumeric_of_addGlobal hadd
    obtain ⟨_, _, _, rfl, _⟩ := Module.addGlobal_eq_ok hadd
    rw [hnumeric] at ih
    exact ih
  | identifier hresolve => exact Module.isNumeric_of_resolve hresolve

/-- An expression becomes a function exactly if it ends in a lambda. -/
theorem lambda?_eq_none_iff (h : Lowers b e value after) :
    e.lambda? = none ↔ value.isNumeric = true := by
  rw [h.isNumeric_eq, Option.isNone_iff_eq_none]

/-- A function that an expression becomes exists. -/
theorem isFunction_eq (h : Lowers b e value after) (hm : b.module.Consistent)
    (hlambda : e.lambda? ≠ none) : after.module.isFunction value = true := by
  have hvalue : value.isNumeric ≠ true := mt h.lambda?_eq_none_iff.mpr hlambda
  cases h with
  | number => exact absurd rfl hvalue
  | fold => exact absurd rfl hvalue
  | emit => exact absurd rfl hlambda
  | identifier => exact absurd rfl hlambda
  | defined he _ hadd =>
    exact absurd (he.lambda?_eq_none_iff.mpr (Module.isNumeric_of_addGlobal hadd)) hlambda
  | named _ hfunction hname =>
    obtain ⟨symbol, rfl, _, ⟨_, rfl⟩ | ⟨_, rfl⟩⟩ := Module.setName_eq_ok hname
    · exact hfunction
    · cases symbol with
      | global => cases hfunction
      | function id =>
        refine decide_eq_true ?_
        simpa [Module.rename] using of_decide_eq_true hfunction
  | lambda _ hbody _ _ happend =>
    have hframe := (hbody.framed (Builder.framed_self (Builder.consistent_enter hm _))).1.frame
    have hle := hframe.functions_le
    obtain ⟨_, _, _, _, _, _, rfl⟩ := Module.append_eq_ok happend
    refine decide_eq_true ?_
    simp only [Builder.enter, Module.openFunction, List.length_append, List.length_singleton] at hle
    simp only [Builder.advance_module, List.length_set]
    omega

end Lowers

end LambdaArith
