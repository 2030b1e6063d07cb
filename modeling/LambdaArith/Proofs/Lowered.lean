import LambdaArith.Proofs.AcceptedWithin
import LambdaArith.Proofs.Placed

/-!
# What has been lowered is acceptable

Lowering keeps track of the scope: the names in the module afterwards are those that reading the
expression gives. So what lowering has found when it succeeds is what makes the expression
acceptable.
-/

namespace LambdaArith

namespace Lowers

open LambdaArith.Expr

variable {b after : Builder} {e : Expr} {value : Value} {scope : Scope}

/-- An expression becomes a constant exactly if it is built of numbers and operators. -/
theorem isConstant_eq (h : Lowers b e value after) : value.isConstant = e.isArithmetic := by
  induction h with
  | number => rfl
  | fold op _ _ ihl ihr => rw [isArithmetic, ← ihl, ← ihr]; rfl
  | emit op _ _ _ _ hnot _ happend ihl ihr =>
    obtain ⟨_, _, _, _, _, rfl, _⟩ := Module.append_eq_ok happend
    rw [isArithmetic, ← ihl, ← ihr, eq_comm]
    exact Bool.eq_false_iff.mpr fun hboth => hnot (Bool.and_eq_true_iff.mp hboth)
  | @named _ _ _ value _ _ _ hfunction _ _ =>
    cases value with
    | function => rfl
    | _ => cases hfunction
  | defined _ _ hadd _ =>
    obtain ⟨_, _, _, rfl, _⟩ := Module.addGlobal_eq_ok hadd
    rfl
  | lambda => rfl
  | @identifier _ _ resolution hresolve =>
    rcases Module.resolve_eq_some hresolve with ⟨_, _, _, _, rfl⟩ | ⟨_, _, _, rfl⟩
    · rfl
    · rfl

/-- Lowering the body of a function gives it no name: only a definition around it would. -/
theorem name_eq_none {parameters : List String} {f : Func}
    (h : Lowers (b.enter parameters) e value after) (hm : b.module.Consistent)
    (hf : after.module.functions[b.module.functions.length]? = some f) : f.name = none := by
  have henter := Builder.consistent_enter hm parameters
  have hframe := (h.framed (Builder.framed_self henter)).1.frame
  have hnew : (b.enter parameters).module.functions[b.module.functions.length]? =
      some ((Func.declare parameters).appendBlock "entry") := by
    simp [Builder.enter, Module.openFunction]
  obtain ⟨g, hg, hgrown⟩ := hframe.function_grown _ _ hnew
  rw [hf, Option.some.injEq] at hg
  subst hg
  exact hgrown.name_eq

/-- The scope after an expression describes the module after it, and an expression that becomes a
function gives it its name. -/
theorem describes (h : Lowers b e value after) (hm : b.module.Consistent)
    (hscope : b.module.Describes scope) :
    after.module.Describes (e.scopeAfter scope) ∧
      ∀ id, value = .function id → after.module.valueName? value = e.functionName? := by
  induction h generalizing scope with
  | number => exact ⟨hscope, fun _ hid => by cases hid⟩
  | fold op hl _ ihl ihr =>
    exact ⟨(ihr (hl.consistent hm) (ihl hm hscope).1).1, fun _ hid => by cases hid⟩
  | emit op hl _ _ _ _ _ happend ihl ihr =>
    obtain ⟨_, _, _, _, _, rfl, rfl⟩ := Module.append_eq_ok happend
    have hboth := (ihr (hl.consistent hm) (ihl hm hscope).1).1
    exact ⟨hboth.of_symbols_eq rfl, fun _ hid => by cases hid⟩
  | @named b b₁ e value m name he hfunction hname ih =>
    obtain ⟨hinner, hown⟩ := ih hm hscope
    have hsome : e.lambda?.isSome = true := by
      rw [← Option.not_isNone, ← he.isNumeric_eq, Module.isNumeric_of_isFunction hfunction]
      rfl
    cases value with
    | function id =>
      have hafter := hinner.setName (he.consistent hm) hname
      rw [hown id rfl] at hafter
      simp only [scopeAfter, functionName?, hsome, if_true]
      exact ⟨hafter, fun _ _ => (he.consistent hm).valueName?_setName hname⟩
    | _ => cases hfunction
  | @defined b b₁ e value global m name he _ hadd ih =>
    have hnone : e.lambda?.isSome = false := by
      rw [← Option.not_isNone, ← he.isNumeric_eq, Module.isNumeric_of_addGlobal hadd]
      rfl
    simp only [scopeAfter, functionName?, hnone, Bool.false_eq_true, if_false]
    refine ⟨(ih hm hscope).1.addGlobal hadd, fun id hid => ?_⟩
    obtain ⟨_, _, _, rfl, _⟩ := Module.addGlobal_eq_ok hadd
    cases hid
  | @lambda b b₁ parameters body value result p m hdistinct hbody hvalue hpoint happend ih =>
    have henter := Builder.consistent_enter hm parameters
    have hinner := (ih henter (hscope.of_symbols_eq rfl)).1
    have hplaced := b.placed_enter (firstRepeated_nil_eq_none_iff.mp hdistinct)
    obtain ⟨g, rfl, hg, _, _, _, _, hsymbols, hlast⟩ :=
      (hbody.placed hvalue hplaced).append_eq_ok hpoint happend
    refine ⟨hinner.of_symbols_eq hsymbols, fun id hid => ?_⟩
    have hnone : g.name = none := hbody.name_eq_none hm hg
    exact Eq.trans (congrArg (Option.bind · Func.name) hlast) hnone
  | identifier hresolve =>
    refine ⟨hscope, fun id hid => ?_⟩
    have hnumeric := Module.isNumeric_of_resolve hresolve
    rw [hid] at hnumeric
    cases hnumeric

/-- What a global has been initialized with is built of numbers and operators, or denotes a
global, or is a definition. -/
theorem canInitialize (h : Lowers b e value after) (hscope : b.module.Describes scope)
    {name : String} {x : Float} (hinitial : after.module.initialValue name value = .ok x)
    {function : Nat} {parameters : List String} (hplaced : b.Placed function parameters) :
    e.CanInitialize parameters scope := by
  rcases Module.initialValue_eq_ok.mp hinitial with rfl | ⟨id, rfl, _⟩
  · exact canInitialize_of_isArithmetic (h.isConstant_eq.symm.trans rfl)
  · generalize hvalue : Value.global id = value at h
    cases h with
    | number => cases hvalue
    | fold => cases hvalue
    | emit _ _ _ _ _ _ _ happend =>
      obtain ⟨_, _, _, _, _, rfl, _⟩ := Module.append_eq_ok happend
      cases hvalue
    | named => trivial
    | defined => trivial
    | lambda => cases hvalue
    | identifier hresolve =>
      rcases Module.resolve_eq_some hresolve with ⟨_, _, _, _, rfl⟩ | ⟨hname, id', hid, rfl⟩
      · cases hvalue
      · rw [hplaced.parameterNames_eq] at hname
        exact ⟨(hscope.globals_iff _).mpr ⟨id', hid⟩, hname⟩

/-- An expression that has become a double is acceptable where it has been lowered. -/
theorem acceptedWithin (h : Lowers b e value after) (hvalue : value.isNumeric = true)
    {function : Nat} {parameters : List String} (hplaced : b.Placed function parameters)
    (hm : b.module.Consistent) (hscope : b.module.Describes scope) :
    e.AcceptedWithin parameters scope := by
  induction h generalizing scope with
  | number => exact ⟨rfl, trivial, trivial, trivial⟩
  | fold op hl hr ihl ihr =>
    rw [acceptedWithin_binary_iff]
    refine ⟨ihl rfl hplaced hm hscope, ?_⟩
    exact ihr rfl (hl.placed rfl hplaced) (hl.consistent hm) (hl.describes hm hscope).1
  | emit op hl hr hln hrn _ _ _ ihl ihr =>
    rw [acceptedWithin_binary_iff]
    refine ⟨ihl hln hplaced hm hscope, ?_⟩
    exact ihr hrn (hl.placed hln hplaced) (hl.consistent hm) (hl.describes hm hscope).1
  | named _ hfunction _ _ =>
    rw [Module.isNumeric_of_isFunction hfunction] at hvalue
    cases hvalue
  | defined he _ hadd ih =>
    obtain ⟨x, hinitial, hfree, _, _⟩ := Module.addGlobal_eq_ok hadd
    rw [acceptedWithin_define_iff]
    refine ⟨ih (Module.isNumeric_of_addGlobal hadd) hplaced hm hscope,
      he.canInitialize hscope hinitial hplaced, ?_⟩
    exact (he.describes hm hscope).1.lookup?_eq_none_iff.mp hfree
  | lambda => cases hvalue
  | identifier hresolve =>
    refine ⟨rfl, ?_, trivial, trivial⟩
    rcases Module.resolve_eq_some hresolve with ⟨_, _, _, hindex, _⟩ | ⟨_, id, hid, _⟩
    · rw [hplaced.parameterNames_eq] at hindex
      exact .inl (List.mem_of_getElem? hindex)
    · exact .inr ((hscope.globals_iff _).mpr ⟨id, hid⟩)

/-- An expression that has been lowered outside of functions is acceptable in a program. -/
theorem accepted (h : Lowers b e value after) (hpoint : b.point = none)
    (hm : b.module.Consistent) (hscope : b.module.Describes scope) : e.Accepted scope := by
  by_cases hlambda : e.lambda? = none
  · rw [accepted_iff_of_lambda? hlambda]
    have hplaced : b.Placed 0 [] := .outside hpoint rfl
    exact h.acceptedWithin (h.lambda?_eq_none_iff.mp hlambda) hplaced hm hscope
  induction h with
  | @lambda b _ parameters _ _ _ _ _ hdistinct hbody hvalue _ _ _ =>
    have hnodup := firstRepeated_nil_eq_none_iff.mp hdistinct
    have henter := Builder.consistent_enter hm parameters
    rw [accepted_lambda_iff]
    exact ⟨hnodup, hbody.acceptedWithin hvalue (b.placed_enter hnodup) henter
      (hscope.of_symbols_eq rfl)⟩
  | @named b b₁ e value m name he hfunction hname ih =>
    obtain ⟨hinner, hown⟩ := he.describes hm hscope
    rw [accepted_define_iff (e := e) hlambda]
    refine ⟨ih hpoint hm hscope hlambda, ?_⟩
    obtain ⟨symbol, rfl, _, ⟨hhas, _⟩ | ⟨hfree, _⟩⟩ := Module.setName_eq_ok hname
    · cases symbol with
      | global id => cases hfunction
      | function id =>
        refine ⟨?_, fun _ => ?_⟩
        · rw [hinner.globals_iff]
          rintro ⟨id', hid'⟩
          rw [hhas] at hid'
          cases hid'
        · rw [← hown id rfl]
          exact (he.consistent hm).valueName?_eq_some hhas
    · obtain ⟨hglobals, hfunctions⟩ := hinner.lookup?_eq_none_iff.mp hfree
      exact ⟨hglobals, fun hmem => absurd hmem hfunctions⟩
  | defined he _ hadd _ =>
    exact absurd (he.lambda?_eq_none_iff.mpr (Module.isNumeric_of_addGlobal hadd)) hlambda
  | _ => exact absurd rfl hlambda

end Lowers

end LambdaArith
