import LambdaArith.Proofs.Accepted
import LambdaArith.Proofs.Derivation

/-!
# Acceptable parts of programs

What is asked of an expression that becomes a double in a function, and how it follows from what is
asked of its parts. Expressions of a program are acceptable if this is so of their bodies.
-/

namespace LambdaArith

namespace Expr

/-- An expression that becomes a double is acceptable in a function with these parameters, or
outside of functions if there are none. -/
structure AcceptedWithin (e : Expr) (parameters : List String) (scope : Scope) : Prop where
  hasLambda_eq : e.hasLambda = false
  identifiersBound : e.IdentifiersBound parameters scope
  definitionsConstant : e.DefinitionsConstant parameters scope
  namesFree : e.NamesFree scope

variable {e : Expr} {parameters : List String} {scope : Scope}

/-- Operands are acceptable one after the other. -/
theorem acceptedWithin_binary_iff {op : Operator} {lhs rhs : Expr} :
    (binary op lhs rhs).AcceptedWithin parameters scope ↔
      lhs.AcceptedWithin parameters scope ∧
        rhs.AcceptedWithin parameters (lhs.scopeAfter scope) := by
  constructor
  · rintro ⟨hlambda, ⟨hlb, hrb⟩, ⟨hld, hrd⟩, ⟨hln, hrn⟩⟩
    obtain ⟨hll, hrl⟩ := Bool.or_eq_false_iff.mp hlambda
    exact ⟨⟨hll, hlb, hld, hln⟩, ⟨hrl, hrb, hrd, hrn⟩⟩
  · rintro ⟨⟨hll, hlb, hld, hln⟩, ⟨hrl, hrb, hrd, hrn⟩⟩
    exact ⟨Bool.or_eq_false_iff.mpr ⟨hll, hrl⟩, ⟨hlb, hrb⟩, ⟨hld, hrd⟩, ⟨hln, hrn⟩⟩

/-- The definition of a double is acceptable if its value is, a global can be initialized with
that, and the name is free. -/
theorem acceptedWithin_define_iff {name : String} :
    (define name e).AcceptedWithin parameters scope ↔
      e.AcceptedWithin parameters scope ∧ e.CanInitialize parameters scope ∧
        name ∉ (e.scopeAfter scope).globals ∧ name ∉ (e.scopeAfter scope).functions := by
  have hname : e.lambda? = none → e.functionName? = none := by
    intro hlambda
    cases e with
    | define name value =>
      simp only [functionName?, show value.lambda? = none from hlambda, Option.isSome_none,
        Bool.false_eq_true, if_false]
    | _ => rfl
  constructor
  · rintro ⟨hlambda, hbound, ⟨hconstant, hinit⟩, ⟨hfree, hglobals, hfunctions⟩⟩
    have hnone := lambda?_of_hasLambda (e := e) hlambda
    refine ⟨⟨hlambda, hbound, hconstant, hfree⟩, hinit hnone, hglobals, fun hmem => ?_⟩
    rw [hname hnone] at hfunctions
    cases hfunctions hmem
  · rintro ⟨⟨hlambda, hbound, hconstant, hfree⟩, hinit, hglobals, hfunctions⟩
    exact ⟨hlambda, hbound, ⟨hconstant, fun _ => hinit⟩,
      ⟨hfree, hglobals, fun hmem => absurd hmem hfunctions⟩⟩

/-- What is built of numbers and operators can initialize a global. -/
theorem canInitialize_of_isArithmetic (h : e.isArithmetic = true) :
    e.CanInitialize parameters scope := by
  cases e with
  | number => rfl
  | binary => exact h
  | _ => cases h

/-- A lambda is acceptable if its parameters differ and its body is acceptable with them. -/
theorem accepted_lambda_iff {body : Expr} :
    (lambda parameters body).Accepted scope ↔
      parameters.Nodup ∧ body.AcceptedWithin parameters scope := by
  constructor
  · rintro ⟨hlambda, ⟨hnodup, _⟩, hbound, hconstant, hfree⟩
    exact ⟨hnodup, hlambda, hbound, hconstant, hfree⟩
  · rintro ⟨hnodup, hlambda, hbound, hconstant, hfree⟩
    exact ⟨hlambda, ⟨hnodup, parametersDistinct_of_hasLambda hlambda⟩, hbound, hconstant, hfree⟩

/-- An expression that does not end in a lambda is acceptable in a program exactly if it is so
outside of functions. -/
theorem accepted_iff_of_lambda? (h : e.lambda? = none) :
    e.Accepted scope ↔ e.AcceptedWithin [] scope := by
  constructor
  · rintro ⟨hlambda, _, hbound, hconstant, hfree⟩
    exact ⟨hlambda.hasLambda h, hbound, hconstant, hfree⟩
  · rintro ⟨hlambda, hbound, hconstant, hfree⟩
    exact ⟨lambdasAtEnd_of_hasLambda hlambda, parametersDistinct_of_hasLambda hlambda, hbound,
      hconstant, hfree⟩

/-- The definition of a function is acceptable if its value is, and the name is free or the one
that the function has. -/
theorem accepted_define_iff {name : String} (h : e.lambda? ≠ none) :
    (define name e).Accepted scope ↔
      e.Accepted scope ∧ name ∉ (e.scopeAfter scope).globals ∧
        (name ∈ (e.scopeAfter scope).functions → e.functionName? = some name) := by
  constructor
  · rintro ⟨hlambda, hdistinct, hbound, ⟨hconstant, _⟩, ⟨hfree, hname⟩⟩
    exact ⟨⟨hlambda, hdistinct, hbound, hconstant, hfree⟩, hname⟩
  · rintro ⟨⟨hlambda, hdistinct, hbound, hconstant, hfree⟩, hname⟩
    exact ⟨hlambda, hdistinct, hbound, ⟨hconstant, fun hnone => absurd hnone h⟩, ⟨hfree, hname⟩⟩

/-- Making an expression the body of a function does not change whether it is acceptable. -/
theorem accepted_topLevel_iff : e.topLevel.Accepted scope ↔ e.Accepted scope := by
  unfold topLevel
  split
  · exact Iff.rfl
  · rename_i hother
    have hlambda : e.lambda? = none := by
      cases e with
      | lambda => exact absurd rfl hother
      | define => exact absurd rfl hother
      | _ => rfl
    rw [accepted_lambda_iff, accepted_iff_of_lambda? hlambda]
    exact and_iff_right List.nodup_nil

/-- Making an expression the body of a function does not change the scope after it. -/
theorem scopeAfter_topLevel : e.topLevel.scopeAfter scope = e.scopeAfter scope := by
  unfold topLevel
  split
  · rfl
  · rfl

end Expr

end LambdaArith
