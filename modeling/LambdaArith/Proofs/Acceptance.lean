import LambdaArith.Proofs.Lowered
import LambdaArith.Proofs.Operation
import LambdaArith.Session

/-!
# Exactly the acceptable programs are lowered

Each step of lowering an acceptable expression finds what it needs, so it succeeds. What has been
lowered is acceptable, so nothing else can be.
-/

namespace LambdaArith

/-- An instruction can be added at the end of an open function. -/
theorem Builder.Placed.exists_append {b : Builder} {function : Nat} {parameters : List String}
    (h : b.Placed function parameters) {p : InsertPoint} (hp : b.point = some p)
    (wanted : Option String) (action : Action) :
    ∃ value m, b.module.append p wanted action = .ok (value, m) := by
  cases h with
  | outside hnone _ =>
    rw [hnone] at hp
    cases hp
  | @inside f hsome hf _ hopen =>
    rw [hsome, Option.some.injEq] at hp
    subst hp
    simp [Module.append, hf, hopen.blocks_eq, hopen.isTerminated]

/-- A global that an expression becomes is there. -/
theorem Lowers.exists_initializer {b after : Builder} {e : Expr} {id : Nat}
    (h : Lowers b e (.global id) after) (hm : b.module.Consistent) :
    ∃ x, after.module.initializer? id = some x := by
  generalize hvalue : Value.global id = value at h
  cases h with
  | number => cases hvalue
  | fold => cases hvalue
  | lambda => cases hvalue
  | emit _ _ _ _ _ _ _ happend =>
    obtain ⟨_, _, _, _, _, rfl, _⟩ := Module.append_eq_ok happend
    cases hvalue
  | named _ hfunction _ =>
    rw [← hvalue] at hfunction
    cases hfunction
  | defined _ _ hadd =>
    obtain ⟨x, _, _, rfl, rfl⟩ := Module.addGlobal_eq_ok hadd
    cases hvalue
    exact ⟨x, by simp [Builder.advance, Module.initializer?]⟩
  | identifier hresolve =>
    rcases Module.resolve_eq_some hresolve with ⟨_, _, _, _, rfl⟩ | ⟨_, other, hother, rfl⟩
    · cases hvalue
    · cases hvalue
      exact hm.exists_initializer hother

namespace Expr

open Lowers

variable {b : Builder} {e : Expr} {parameters : List String} {scope : Scope}

/-- What can initialize a global does so when it has been lowered. -/
theorem exists_initialValue {after : Builder} {value : Value} (h : Lowers b e value after)
    (hvalue : value.isNumeric = true) (hm : b.module.Consistent)
    (hinit : e.CanInitialize parameters scope) {function : Nat}
    (hplaced : b.Placed function parameters) (name : String) :
    ∃ x, after.module.initialValue name value = .ok x := by
  by_cases hconstant : value.isConstant = true
  · cases value with
    | constant x => exact ⟨x, rfl⟩
    | _ => cases hconstant
  · have hglobal : ∀ id, value = .global id → ∃ x, after.module.initialValue name value = .ok x := by
      rintro id rfl
      obtain ⟨x, hx⟩ := h.exists_initializer hm
      exact ⟨x, Module.initialValue_eq_ok.mpr (.inr ⟨id, rfl, hx⟩)⟩
    rw [h.isConstant_eq] at hconstant
    cases h with
    | defined he _ hadd =>
      obtain ⟨_, _, _, rfl, _⟩ := Module.addGlobal_eq_ok hadd
      exact hglobal _ rfl
    | identifier hresolve =>
      rcases Module.resolve_eq_some hresolve with ⟨_, _, _, hindex, _⟩ | ⟨_, id, hid, rfl⟩
      · rw [hplaced.parameterNames_eq] at hindex
        exact absurd (List.mem_of_getElem? hindex) hinit.2
      · exact hglobal _ rfl
    | named _ hfunction _ =>
      rw [Module.isNumeric_of_isFunction hfunction] at hvalue
      cases hvalue
    | lambda => cases hvalue
    | number => exact absurd rfl hconstant
    | fold => exact absurd hinit hconstant
    | emit => exact absurd hinit hconstant

/-- Two operands that have become doubles are computed with, in a function or if both are
constants. -/
theorem exists_lowers_binary {b₁ b₂ : Builder} {lhs rhs : Expr} {left right : Value}
    (op : Operator) (hl : Lowers b lhs left b₁) (hr : Lowers b₁ rhs right b₂)
    (hln : left.isNumeric = true) (hrn : right.isNumeric = true) {function : Nat}
    (hplaced : b₂.Placed function parameters)
    (hinside : b₂.point = none → left.isConstant = true ∧ right.isConstant = true) :
    ∃ value after, Lowers b (.binary op lhs rhs) value after ∧ value.isNumeric = true := by
  by_cases hboth : left.isConstant = true ∧ right.isConstant = true
  · cases left with
    | constant x =>
      cases right with
      | constant y => exact ⟨_, _, .fold op hl hr, rfl⟩
      | _ => cases hboth.2
    | _ => cases hboth.1
  · cases hpoint : b₂.point with
    | none => exact absurd (hinside hpoint) hboth
    | some p =>
      obtain ⟨value, m, happend⟩ := hplaced.exists_append hpoint (some op.resultName)
        (.compute op left right)
      refine ⟨value, _, .emit op hl hr hln hrn hboth hpoint happend, ?_⟩
      obtain ⟨_, _, _, _, _, rfl, _⟩ := Module.append_eq_ok happend
      rfl

/-- An identifier that is bound is found. -/
theorem exists_resolve {name : String} (hbound : name ∈ parameters ∨ name ∈ scope.globals)
    {function : Nat} (hplaced : b.Placed function parameters) (hscope : b.module.Describes scope) :
    ∃ resolution,
      b.module.resolve (b.point.map InsertPoint.function) name = some resolution := by
  by_cases hname : name ∈ b.module.parameterNames (b.point.map InsertPoint.function)
  · obtain ⟨_, _, _, _, hresolve⟩ := Module.resolve_of_mem hname
    exact ⟨_, hresolve⟩
  · rw [Module.resolve_of_not_mem hname]
    rw [hplaced.parameterNames_eq] at hname
    obtain ⟨id, hid⟩ := (hscope.globals_iff name).mp (hbound.resolve_left hname)
    have hglobal := Module.global?_eq_some_iff.mpr ⟨id, hid, rfl⟩
    exact ⟨_, by rw [hglobal]; rfl⟩

/-- An acceptable expression becomes a double, in a function or if a global could be initialized
with it. -/
theorem AcceptedWithin.exists_lowers (h : e.AcceptedWithin parameters scope) {function : Nat}
    (hplaced : b.Placed function parameters) (hm : b.module.Consistent)
    (hscope : b.module.Describes scope)
    (hinside : b.point = none → e.CanInitialize parameters scope) :
    ∃ value after, Lowers b e value after ∧ value.isNumeric = true := by
  induction e generalizing b scope with
  | number x => exact ⟨_, _, .number b x, rfl⟩
  | binary op lhs rhs ihl ihr =>
    obtain ⟨hleft, hright⟩ := acceptedWithin_binary_iff.mp h
    have harith : b.point = none → lhs.isArithmetic = true ∧ rhs.isArithmetic = true :=
      fun hpoint => Bool.and_eq_true_iff.mp (hinside hpoint)
    obtain ⟨left, b₁, hl, hln⟩ := ihl hleft hplaced hm hscope
      fun hpoint => canInitialize_of_isArithmetic (harith hpoint).1
    obtain ⟨right, b₂, hr, hrn⟩ := ihr hright (hl.placed hln hplaced) (hl.consistent hm)
      (hl.describes hm hscope).1
      fun hpoint => canInitialize_of_isArithmetic (harith (hl.point_eq.symm.trans hpoint)).2
    refine exists_lowers_binary op hl hr hln hrn (hr.placed hrn (hl.placed hln hplaced)) ?_
    intro hpoint
    rw [hl.isConstant_eq, hr.isConstant_eq]
    exact harith (hl.point_eq.symm.trans (hr.point_eq.symm.trans hpoint))
  | define name value ih =>
    obtain ⟨hvalue, hinit, hfree⟩ := acceptedWithin_define_iff.mp h
    obtain ⟨v, b₁, hlowers, hnumeric⟩ := ih hvalue hplaced hm hscope fun _ => hinit
    obtain ⟨x, hx⟩ := exists_initialValue hlowers hnumeric hm hinit hplaced name
    have hlookup := (hlowers.describes hm hscope).1.lookup?_eq_none_iff.mpr hfree
    have hfunction : b₁.module.isFunction v = false := by
      cases v with
      | function => cases hnumeric
      | _ => rfl
    obtain ⟨m, hadd⟩ := Module.exists_addGlobal hx hlookup
    exact ⟨_, _, .defined hlowers hfunction hadd, rfl⟩
  | lambda => cases h.hasLambda_eq
  | identifier name =>
    obtain ⟨resolution, hresolve⟩ := exists_resolve h.identifiersBound hplaced hscope
    exact ⟨_, _, .identifier hresolve, Module.isNumeric_of_resolve hresolve⟩

/-- An acceptable expression of a program can be lowered outside of functions. -/
theorem Accepted.exists_lowers (h : e.Accepted scope) (hpoint : b.point = none)
    (hm : b.module.Consistent) (hscope : b.module.Describes scope)
    (htop : e.isDefinitionOrLambda = true) : ∃ value after, Lowers b e value after := by
  by_cases hlambda : e.lambda? = none
  · have hwithin := (accepted_iff_of_lambda? hlambda).mp h
    have hplaced : b.Placed 0 [] := .outside hpoint rfl
    have hinit : e.CanInitialize [] scope := by
      cases e with
      | define => trivial
      | lambda => cases hlambda
      | _ => cases htop
    obtain ⟨value, after, hlowers, _⟩ := hwithin.exists_lowers hplaced hm hscope fun _ => hinit
    exact ⟨value, after, hlowers⟩
  induction e with
  | lambda parameters body =>
    obtain ⟨hnodup, hbody⟩ := accepted_lambda_iff.mp h
    have hplaced := b.placed_enter hnodup
    obtain ⟨result, b₁, hlowers, hresult⟩ := hbody.exists_lowers hplaced
      (Builder.consistent_enter hm parameters) (hscope.of_symbols_eq rfl) nofun
    have hpoint₁ := hlowers.point_eq.trans rfl
    obtain ⟨_, m, happend⟩ := (hlowers.placed hresult hplaced).exists_append hpoint₁ none
      (.ret result)
    exact ⟨_, _, .lambda (firstRepeated_nil_eq_none_iff.mpr hnodup) hlowers hresult hpoint₁ happend⟩
  | define name value ih =>
    obtain ⟨hvalue, hglobals, hfunctions⟩ := (accepted_define_iff (e := value) hlambda).mp h
    have htop' : value.isDefinitionOrLambda = true := by
      cases value with
      | define => rfl
      | lambda => rfl
      | _ => exact absurd rfl hlambda
    obtain ⟨v, b₁, hlowers⟩ := ih hvalue htop' hlambda
    obtain ⟨hinner, hown⟩ := hlowers.describes hm hscope
    cases v with
    | function id =>
      have hfunction := hlowers.isFunction_eq hm hlambda
      have hid : id < b₁.module.functions.length := of_decide_eq_true hfunction
      rw [← hown id rfl] at hfunctions
      obtain ⟨m, hset⟩ := Module.exists_setName hid fun _ hsymbol =>
        hinner.eq_of_lookup? (hlowers.consistent hm) hglobals hfunctions hsymbol
      exact ⟨_, _, .named hlowers hfunction hset⟩
    | _ => exact absurd (hlowers.lambda?_eq_none_iff.mpr rfl) hlambda
  | _ => cases htop

/-- An expression of a program can be lowered outside of functions exactly if it is
acceptable. -/
theorem exists_lowers_topLevel_iff (hpoint : b.point = none) (hm : b.module.Consistent)
    (hscope : b.module.Describes scope) :
    (∃ value after, Lowers b e.topLevel value after) ↔ e.Accepted scope := by
  rw [← accepted_topLevel_iff]
  constructor
  · rintro ⟨value, after, h⟩
    exact h.accepted hpoint hm hscope
  · intro h
    refine h.exists_lowers hpoint hm hscope ?_
    unfold topLevel
    split
    · assumption
    · rfl

/-- A program can be lowered outside of functions exactly if it is acceptable. -/
theorem exists_lowerEach_iff {exprs : List Expr} (hpoint : b.point = none)
    (hm : b.module.Consistent) (hscope : b.module.Describes scope) :
    (∃ values after, lowerEach exprs b = (.ok values, after)) ↔ AcceptedEach exprs scope := by
  induction exprs generalizing b scope with
  | nil => exact ⟨fun _ => trivial, fun _ => ⟨[], b, rfl⟩⟩
  | cons e rest ih =>
    rw [AcceptedEach, ← exists_lowers_topLevel_iff hpoint hm hscope]
    constructor
    · rintro ⟨values, after, h⟩
      obtain ⟨value, b₁, hfirst, h⟩ := Build.bind_eq_ok.mp h
      obtain ⟨others, b₂, hrest, _⟩ := Build.bind_eq_ok.mp h
      rw [lowerTopLevel_eq] at hfirst
      have hlowers := Lowers.of_lower hfirst
      have hscope₁ := (hlowers.describes hm hscope).1
      rw [scopeAfter_topLevel] at hscope₁
      refine ⟨⟨value, b₁, hlowers⟩, ?_⟩
      exact (ih (hlowers.point_eq.trans hpoint) (hlowers.consistent hm) hscope₁).mp
        ⟨others, b₂, hrest⟩
    · rintro ⟨⟨value, b₁, hlowers⟩, h⟩
      have hscope₁ := (hlowers.describes hm hscope).1
      rw [scopeAfter_topLevel] at hscope₁
      obtain ⟨others, b₂, hrest⟩ :=
        (ih (hlowers.point_eq.trans hpoint) (hlowers.consistent hm) hscope₁).mpr h
      refine ⟨value :: others, b₂, Build.bind_eq_ok.mpr ⟨value, b₁, ?_, ?_⟩⟩
      · rw [lowerTopLevel_eq]
        exact hlowers.lower_eq
      · exact Build.bind_eq_ok.mpr ⟨others, b₂, hrest, rfl⟩

end Expr

namespace Module

/-- A program is lowered into a module successfully exactly if it is acceptable in the scope of
the module. -/
theorem lowerAll_succeeds_iff {m : Module} (hm : m.Reachable) (exprs : List Expr) :
    (∃ values, (m.lowerAll exprs).result = .ok values) ↔ Expr.AcceptedEach exprs m.scope := by
  have hstart : (Builder.ofModule m).module.Consistent := hm.consistent
  rw [← Expr.exists_lowerEach_iff (b := Builder.ofModule m) rfl hstart hm.consistent.describes]
  unfold lowerAll
  split
  · rename_i values b heq
    exact ⟨fun _ => ⟨values, b, heq⟩, fun _ => ⟨values, rfl⟩⟩
  · rename_i error b heq
    constructor
    · rintro ⟨values, ⟨⟩⟩
    · rintro ⟨values, after, h⟩
      rw [heq] at h
      cases h

/-- A function is renamed along a chain of definitions, and its inner name is free again. -/
theorem lowerAll_succeeds_renaming :
    ∃ values, ((empty "m").lowerAll
      [.define "f" (.define "g" (.lambda ["x"] (.identifier "x"))),
        .define "g" (.number 1)]).result = .ok values := by
  have hreachable : (empty "m").Reachable := ⟨"m", [], rfl⟩
  refine (lowerAll_succeeds_iff hreachable _).mpr ⟨?_, ?_, trivial⟩
  · exact ⟨rfl, ⟨by decide, trivial⟩, .inl (by decide), ⟨⟨trivial, nofun⟩, nofun⟩,
      ⟨trivial, by decide, by decide⟩, by decide, by decide⟩
  · exact ⟨trivial, trivial, trivial, ⟨trivial, fun _ => rfl⟩, trivial, by decide, by decide⟩

end Module

end LambdaArith
