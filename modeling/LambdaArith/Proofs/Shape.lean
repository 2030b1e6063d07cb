import LambdaArith.Expr
import LambdaArith.Proofs.Patterns

/-!
# What trees are made of

The names, the numbers and the height of an expression. Expressions that are equal may differ in a
number only where two doubles are equal without being the same, so they have the same names and as
many of everything.
-/

namespace LambdaArith

namespace Expr

/-- The names in an expression, those that it binds and those that it uses. -/
def names : Expr → List String
  | number _ => []
  | binary _ lhs rhs => lhs.names ++ rhs.names
  | define name value => name :: value.names
  | lambda parameters body => parameters ++ body.names
  | identifier name => [name]

/-- The numbers in an expression. -/
def numbers : Expr → List Float
  | number value => [value]
  | binary _ lhs rhs => lhs.numbers ++ rhs.numbers
  | define _ value => value.numbers
  | lambda _ body => body.numbers
  | identifier _ => []

/-- How many operators and names there are in an expression. -/
def marks : Expr → Nat
  | number _ => 0
  | binary _ lhs rhs => lhs.marks + rhs.marks + 1
  | define _ value => value.marks + 1
  | lambda parameters body => parameters.length + body.marks
  | identifier _ => 1

/-- How many expressions are above the lowest one. -/
def height : Expr → Nat
  | number _ => 0
  | binary _ lhs rhs => max lhs.height rhs.height + 1
  | define _ value => value.height + 1
  | lambda _ body => body.height + 1
  | identifier _ => 0

/-- No lambda repeats a parameter. -/
def ParametersDistinct : Expr → Prop
  | number _ => True
  | binary _ lhs rhs => lhs.ParametersDistinct ∧ rhs.ParametersDistinct
  | define _ value => value.ParametersDistinct
  | lambda parameters body => parameters.Nodup ∧ body.ParametersDistinct
  | identifier _ => True

/-- The expression with zero for every number. -/
def skeleton : Expr → Expr
  | number _ => number 0
  | binary op lhs rhs => binary op lhs.skeleton rhs.skeleton
  | define name value => define name value.skeleton
  | lambda parameters body => lambda parameters body.skeleton
  | identifier name => identifier name

variable {e other : Expr}

/-- Equal expressions differ in their numbers at most. -/
theorem skeleton_eq_of_beq (h : (e == other) = true) : e.skeleton = other.skeleton := by
  induction e generalizing other with
  | number value =>
    cases other with
    | number _ => rfl
    | _ => cases h
  | binary op lhs rhs ihl ihr =>
    cases other with
    | binary op' lhs' rhs' =>
      have hparts : (op == op' && (lhs == lhs' && rhs == rhs')) = true := h
      simp only [Bool.and_eq_true, beq_iff_eq] at hparts
      obtain ⟨rfl, hl, hr⟩ := hparts
      rw [skeleton, skeleton, ihl hl, ihr hr]
    | _ => cases h
  | define name value ih =>
    cases other with
    | define name' value' =>
      have hparts : (name == name' && value == value') = true := h
      simp only [Bool.and_eq_true, beq_iff_eq] at hparts
      obtain ⟨rfl, hvalue⟩ := hparts
      rw [skeleton, skeleton, ih hvalue]
    | _ => cases h
  | lambda parameters body ih =>
    cases other with
    | lambda parameters' body' =>
      have hparts : (parameters == parameters' && body == body') = true := h
      simp only [Bool.and_eq_true, beq_iff_eq] at hparts
      obtain ⟨rfl, hbody⟩ := hparts
      rw [skeleton, skeleton, ih hbody]
    | _ => cases h
  | identifier name =>
    cases other with
    | identifier name' =>
      have hname : (name == name') = true := h
      rw [beq_iff_eq.mp hname]
    | _ => cases h

/-- The names do not depend on the numbers. -/
theorem names_skeleton (e : Expr) : e.skeleton.names = e.names := by
  induction e with
  | number _ => rfl
  | binary _ _ _ ihl ihr => rw [skeleton, names, names, ihl, ihr]
  | define _ _ ih => rw [skeleton, names, names, ih]
  | lambda _ _ ih => rw [skeleton, names, names, ih]
  | identifier _ => rfl

/-- How many operators and names there are does not depend on the numbers. -/
theorem marks_skeleton (e : Expr) : e.skeleton.marks = e.marks := by
  induction e with
  | number _ => rfl
  | binary _ _ _ ihl ihr => rw [skeleton, marks, marks, ihl, ihr]
  | define _ _ ih => rw [skeleton, marks, marks, ih]
  | lambda _ _ ih => rw [skeleton, marks, marks, ih]
  | identifier _ => rfl

/-- Whether a parameter is repeated does not depend on the numbers. -/
theorem parametersDistinct_skeleton (e : Expr) :
    e.skeleton.ParametersDistinct ↔ e.ParametersDistinct := by
  induction e with
  | number _ => exact Iff.rfl
  | binary _ _ _ ihl ihr => rw [skeleton, ParametersDistinct, ParametersDistinct, ihl, ihr]
  | define _ _ ih => rw [skeleton, ParametersDistinct, ParametersDistinct, ih]
  | lambda _ _ ih => rw [skeleton, ParametersDistinct, ParametersDistinct, ih]
  | identifier _ => exact Iff.rfl

/-- An expression with finite numbers equals itself. -/
theorem beq_self (h : ∀ x ∈ e.numbers, Binary64.magnitude x < Binary64.infinity) :
    (e == e) = true := by
  induction e with
  | number value => exact Binary64.beq_self (h value List.mem_cons_self)
  | binary op lhs rhs ihl ihr =>
    have hparts : (op == op && (lhs == lhs && rhs == rhs)) = true := by
      simp only [Bool.and_eq_true, beq_self_eq_true, true_and]
      exact ⟨ihl fun x hx => h x (List.mem_append_left _ hx),
        ihr fun x hx => h x (List.mem_append_right _ hx)⟩
    exact hparts
  | define name value ih =>
    have hparts : (name == name && value == value) = true := by
      simp only [Bool.and_eq_true, beq_self_eq_true, true_and]
      exact ih h
    exact hparts
  | lambda parameters body ih =>
    have hparts : (parameters == parameters && body == body) = true := by
      simp only [Bool.and_eq_true, beq_self_eq_true, true_and]
      exact ih h
    exact hparts
  | identifier name => exact beq_self_eq_true name

end Expr

end LambdaArith
