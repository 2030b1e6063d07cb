import LambdaArith.Proofs.Steps

/-!
# Successful lowering, step by step

Lowering an expression succeeds exactly if it can be derived by the rules of `Lowers`, one for each
way in which a value comes about. What holds of all successful lowering is shown by induction on
these rules.
-/

namespace LambdaArith

/-- Lowering an expression gives a value and leaves a builder. -/
inductive Lowers : Builder → Expr → Value → Builder → Prop
  | number (b : Builder) (x : Float) : Lowers b (.number x) (.constant x) b
  /-- An operator on two constants is computed. -/
  | fold {b b₁ b₂ : Builder} {lhs rhs : Expr} {x y : Float} (op : Operator) :
      Lowers b lhs (.constant x) b₁ → Lowers b₁ rhs (.constant y) b₂ →
      Lowers b (.binary op lhs rhs) (.constant (op.apply x y)) b₂
  /-- An operator on other doubles becomes an instruction. -/
  | emit {b b₁ b₂ : Builder} {lhs rhs : Expr} {left right value : Value} {p : InsertPoint}
      {m : Module} (op : Operator) :
      Lowers b lhs left b₁ → Lowers b₁ rhs right b₂ →
      left.isNumeric = true → right.isNumeric = true →
      ¬ (left.isConstant = true ∧ right.isConstant = true) → b₂.point = some p →
      b₂.module.append p (some op.resultName) (.compute op left right) = .ok (value, m) →
      Lowers b (.binary op lhs rhs) value (b₂.advance m (.emittingOperation op p))
  /-- The definition of a function names it. -/
  | named {b b₁ : Builder} {e : Expr} {value : Value} {m : Module} {name : String} :
      Lowers b e value b₁ → b₁.module.isFunction value = true →
      b₁.module.setName value name = .ok m →
      Lowers b (.define name e) value (b₁.advance m (.definedFunction name))
  /-- The definition of anything else makes a global. -/
  | defined {b b₁ : Builder} {e : Expr} {value global : Value} {m : Module} {name : String} :
      Lowers b e value b₁ → b₁.module.isFunction value = false →
      b₁.module.addGlobal name value = .ok (global, m) →
      Lowers b (.define name e) global (b₁.advance m (.definedGlobal name))
  /-- A lambda becomes a function that returns the value of its body. -/
  | lambda {b b₁ : Builder} {parameters : List String} {body : Expr} {value result : Value}
      {p : InsertPoint} {m : Module} :
      firstRepeated [] parameters = none → Lowers (b.enter parameters) body value b₁ →
      value.isNumeric = true → b₁.point = some p →
      b₁.module.append p none (.ret value) = .ok (result, m) →
      Lowers b (.lambda parameters body) (.function b.module.functions.length)
        { b₁.advance m (.emittingReturn p) with point := b.point }
  | identifier {b : Builder} {name : String} {resolution : Resolution} :
      b.module.resolve (b.point.map InsertPoint.function) name = some resolution →
      Lowers b (.identifier name) resolution.value b

/-- What lowering an expression comes to can be derived by the rules. -/
theorem Lowers.of_lower {e : Expr} {b after : Builder} {value : Value}
    (h : e.lower b = (.ok value, after)) : Lowers b e value after := by
  induction e generalizing b after value with
  | number x =>
    cases h
    exact .number _ x
  | binary op lhs rhs ihl ihr =>
    obtain ⟨left, b₁, hl, h⟩ := Build.bind_eq_ok.mp h
    obtain ⟨right, b₂, hr, h⟩ := Build.bind_eq_ok.mp h
    rcases Build.operation_eq_ok.mp h with ⟨x, y, rfl, rfl, rfl, rfl⟩ |
      ⟨hln, hrn, hnot, p, m, hpoint, happend, rfl⟩
    · exact .fold op (ihl hl) (ihr hr)
    · exact .emit op (ihl hl) (ihr hr) hln hrn hnot hpoint happend
  | define name e ih =>
    obtain ⟨v, b₁, he, h⟩ := Build.bind_eq_ok.mp h
    rcases Build.define_eq_ok.mp h with ⟨hfunction, m, hname, rfl, rfl⟩ |
      ⟨hfunction, m, hadd, rfl⟩
    · exact .named (ih he) hfunction hname
    · exact .defined (ih he) hfunction hadd
  | lambda parameters body ih =>
    obtain ⟨hdistinct, result, b₁, b₂, hbody, hret, rfl, rfl⟩ := Build.lambda_eq_ok.mp h
    obtain ⟨hnumeric, p, _, m, hpoint, happend, rfl⟩ := Build.ret_eq_ok.mp hret
    exact .lambda hdistinct (ih hbody) hnumeric hpoint happend
  | identifier name =>
    obtain ⟨resolution, hresolve, rfl, rfl⟩ := Build.resolve_eq_ok.mp h
    exact .identifier hresolve

/-- What can be derived by the rules is what lowering the expression comes to. -/
theorem Lowers.lower_eq {e : Expr} {b after : Builder} {value : Value}
    (h : Lowers b e value after) : e.lower b = (.ok value, after) := by
  induction h with
  | number b x => rfl
  | fold op _ _ ihl ihr =>
    refine Build.bind_eq_ok.mpr ⟨_, _, ihl, Build.bind_eq_ok.mpr ⟨_, _, ihr, ?_⟩⟩
    exact Build.operation_eq_ok.mpr (.inl ⟨_, _, rfl, rfl, rfl, rfl⟩)
  | emit op _ _ hln hrn hnot hpoint happend ihl ihr =>
    refine Build.bind_eq_ok.mpr ⟨_, _, ihl, Build.bind_eq_ok.mpr ⟨_, _, ihr, ?_⟩⟩
    exact Build.operation_eq_ok.mpr (.inr ⟨hln, hrn, hnot, _, _, hpoint, happend, rfl⟩)
  | named _ hfunction hname ih =>
    refine Build.bind_eq_ok.mpr ⟨_, _, ih, ?_⟩
    exact Build.define_eq_ok.mpr (.inl ⟨hfunction, _, hname, rfl, rfl⟩)
  | defined _ hfunction hadd ih =>
    refine Build.bind_eq_ok.mpr ⟨_, _, ih, ?_⟩
    exact Build.define_eq_ok.mpr (.inr ⟨hfunction, _, hadd, rfl⟩)
  | lambda hdistinct _ hnumeric hpoint happend ih =>
    refine Build.lambda_eq_ok.mpr ⟨hdistinct, _, _, _, ih, ?_, rfl, rfl⟩
    exact Build.ret_eq_ok.mpr ⟨hnumeric, _, _, _, hpoint, happend, rfl⟩
  | identifier hresolve => exact Build.resolve_eq_ok.mpr ⟨_, hresolve, rfl, rfl⟩

/-- Lowering succeeds exactly with what can be derived by the rules. -/
theorem lower_eq_ok_iff {e : Expr} {b after : Builder} {value : Value} :
    e.lower b = (.ok value, after) ↔ Lowers b e value after :=
  ⟨Lowers.of_lower, Lowers.lower_eq⟩

namespace Expr

/-- What is lowered for an expression of a program. What is neither a definition nor a lambda is
made the body of a function without parameters. -/
def topLevel (e : Expr) : Expr :=
  if e.isDefinitionOrLambda then e else lambda [] e

/-- What is lowered for an expression of a program. -/
theorem lowerTopLevel_eq (e : Expr) : e.lowerTopLevel = e.topLevel.lower := by
  unfold lowerTopLevel topLevel
  split
  · rfl
  · rfl

end Expr

end LambdaArith
