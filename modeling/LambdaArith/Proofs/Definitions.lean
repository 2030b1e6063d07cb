import LambdaArith.Proofs.DefinedNames
import LambdaArith.Proofs.Lowered
import LambdaArith.Proofs.Request
import LambdaArith.Proofs.Sessions

/-!
# What definitions bind

A definition of a double makes a global, wherever it stands, and the globals of a program are made
in the order of their definitions. A definition of a function names the function. As a function has
one name only, a chain of such definitions leaves it the outermost, and the names inside the chain
are free again.
-/

namespace LambdaArith

namespace Expr

/-- The definitions in an expression with their values, each behind those in its own value. -/
def definitions : Expr → List (String × Expr)
  | number _ => []
  | binary _ lhs rhs => lhs.definitions ++ rhs.definitions
  | define name value => value.definitions ++ [(name, value)]
  | lambda _ body => body.definitions
  | identifier _ => []

/-- The definitions that make globals: those that no chain ending in a lambda goes through. -/
def globalDefinitions (e : Expr) : List (String × Expr) :=
  e.definitions.filter fun definition => definition.2.lambda?.isNone

/-- What is lowered for an expression of a program has the same definitions. -/
theorem definitions_topLevel (e : Expr) : e.topLevel.definitions = e.definitions := by
  unfold topLevel
  split <;> rfl

/-- What is lowered for an expression of a program gives the same name to a function. -/
theorem functionName?_topLevel (e : Expr) : e.topLevel.functionName? = e.functionName? := by
  unfold topLevel
  split
  · rfl
  · cases e with
    | define => rename_i h; exact absurd rfl h
    | _ => rfl

/-- The operands of an operator make globals from left to right. -/
theorem globalDefinitions_binary (op : Operator) (lhs rhs : Expr) :
    (binary op lhs rhs).globalDefinitions = lhs.globalDefinitions ++ rhs.globalDefinitions :=
  List.filter_append ..

/-- A definition makes a global after those in its value, unless it is that of a function. -/
theorem globalDefinitions_define (name : String) (value : Expr) :
    (define name value).globalDefinitions =
      value.globalDefinitions ++ if value.lambda?.isNone then [(name, value)] else [] := by
  simp only [globalDefinitions, definitions, List.filter_append, List.filter_singleton,
    cond_eq_ite]

end Expr

open LambdaArith.Expr

namespace Lowers

variable {b after : Builder} {e : Expr} {value : Value}

/-- Lowering makes the globals that are defined, in this order. -/
theorem globals_names_eq (h : Lowers b e value after) :
    after.module.globals.map Global.name =
      b.module.globals.map Global.name ++ e.globalDefinitions.map Prod.fst := by
  induction h with
  | number => exact (List.append_nil _).symm
  | fold op _ _ ihl ihr =>
    rw [ihr, ihl, globalDefinitions_binary, List.map_append, List.append_assoc]
  | emit op _ _ _ _ _ _ happend ihl ihr =>
    obtain ⟨_, _, _, _, _, _, rfl⟩ := Module.append_eq_ok happend
    rw [globalDefinitions_binary, List.map_append, ← List.append_assoc, ← ihl]
    exact ihr
  | @named _ _ _ value _ _ he hfunction hname ih =>
    -- Only a function has been named, and that changes no global.
    have hvalue := he.isNumeric_eq.symm.trans (Module.isNumeric_of_isFunction hfunction)
    rw [globalDefinitions_define, hvalue, if_neg Bool.false_ne_true, List.append_nil, ← ih]
    obtain ⟨symbol, rfl, _, ⟨_, rfl⟩ | ⟨_, rfl⟩⟩ := Module.setName_eq_ok hname
    · rfl
    · cases symbol with
      | global => cases hfunction
      | function => rfl
  | defined he _ hadd ih =>
    have hvalue := he.isNumeric_eq.symm.trans (Module.isNumeric_of_addGlobal hadd)
    obtain ⟨_, _, _, _, rfl⟩ := Module.addGlobal_eq_ok hadd
    rw [globalDefinitions_define, hvalue, if_pos rfl, List.map_append, ← List.append_assoc, ← ih]
    exact List.map_append
  | lambda _ _ _ _ happend ih =>
    obtain ⟨_, _, _, _, _, _, rfl⟩ := Module.append_eq_ok happend
    exact ih
  | identifier => exact (List.append_nil _).symm

/-- Only an expression that becomes a function itself has the definition of a function in it. -/
theorem lambda?_ne_none_of_mem (h : Lowers b e value after) {name : String} {inner : Expr}
    (hmem : (name, inner) ∈ e.definitions) (hinner : inner.lambda? ≠ none) : e.lambda? ≠ none := by
  induction h with
  | number => cases hmem
  | fold op hl hr ihl ihr =>
    rcases List.mem_append.mp hmem with hleft | hright
    · exact absurd (hl.lambda?_eq_none_iff.mpr rfl) (ihl hleft)
    · exact absurd (hr.lambda?_eq_none_iff.mpr rfl) (ihr hright)
  | emit op hl hr hleft hright _ _ _ ihl ihr =>
    rcases List.mem_append.mp hmem with hmem | hmem
    · exact absurd (hl.lambda?_eq_none_iff.mpr hleft) (ihl hmem)
    · exact absurd (hr.lambda?_eq_none_iff.mpr hright) (ihr hmem)
  | named _ _ _ ih | defined _ _ _ ih =>
    rcases List.mem_append.mp hmem with hmem | hself
    · exact ih hmem
    · cases List.mem_singleton.mp hself
      exact hinner
  | lambda => exact nofun
  | identifier => cases hmem

end Lowers

namespace Module

/-- The definitions of functions in an expression are those of its value, which has the outermost
of their names and none of the others. -/
def NamesFunction (m : Module) (e : Expr) (value : Value) : Prop :=
  ∀ name inner, (name, inner) ∈ e.definitions → inner.lambda? ≠ none →
    ∃ id, value = .function id ∧
      (m.lookup? name = some (.function id) ↔ e.functionName? = some name)

/-- A function keeps its name in every extension of the module. -/
theorem NamesFunction.of_frame {m after : Module} {e : Expr} {value : Value}
    (h : m.NamesFunction e value) (hvalue : ∀ id, value = .function id → id < m.functions.length)
    (hframe : m.Frame none after) : after.NamesFunction e value := by
  intro name inner hmem hinner
  obtain ⟨id, rfl, hname⟩ := h name inner hmem hinner
  have hcovers : m.checkpoint.covers (.function id) = true := decide_eq_true (hvalue id rfl)
  exact ⟨id, rfl, (hframe.lookup?_iff name (.function id) hcovers).trans hname⟩

end Module

/-- What an expression is lowered to has the outermost of the names that are defined for it. -/
theorem Lowers.namesFunction {b after : Builder} {e : Expr} {value : Value}
    (h : Lowers b e value after) (hm : b.module.Consistent) :
    after.module.NamesFunction e value ∧
      ∀ id, value = .function id → id < after.module.functions.length := by
  have hafter := h.consistent hm
  have hexists : e.lambda? ≠ none → after.module.isFunction value = true := h.isFunction_eq hm
  cases value with
  | function id =>
    have hlambda : e.lambda? ≠ none := mt h.lambda?_eq_none_iff.mp Bool.false_ne_true
    have hown := (h.describes hm hm.describes).2 id rfl
    refine ⟨fun name inner _ _ => ⟨id, rfl, ?_⟩, ?_⟩
    · rw [hafter, ← hown]
      rfl
    · rintro _ ⟨⟩
      exact of_decide_eq_true (hexists hlambda)
  | _ =>
    refine ⟨fun name inner hmem hinner => ?_, fun _ => nofun⟩
    cases hexists (h.lambda?_ne_none_of_mem hmem hinner)

/-- A program that is lowered outside of functions makes its globals in order, and its functions
have the outermost of the names that are defined for them. -/
theorem Expr.lowerEach_binds_definitions {exprs : List Expr} {b after : Builder}
    {values : List Value} (h : lowerEach exprs b = (.ok values, after)) (hpoint : b.point = none)
    (hm : b.module.Consistent) :
    after.module.globals.map Global.name =
        b.module.globals.map Global.name ++ (exprs.flatMap globalDefinitions).map Prod.fst ∧
      List.Forall₂ after.module.NamesFunction exprs values := by
  induction exprs generalizing b values with
  | nil =>
    cases h
    exact ⟨(List.append_nil _).symm, .nil⟩
  | cons e rest ih =>
    obtain ⟨value, b₁, hfirst, h⟩ := Build.bind_eq_ok.mp h
    obtain ⟨others, b₂, hrest, hpure⟩ := Build.bind_eq_ok.mp h
    cases hpure
    rw [lowerTopLevel_eq] at hfirst
    have hlowers := Lowers.of_lower hfirst
    have hm₁ := hlowers.consistent hm
    have hpoint₁ : b₁.point = none := hlowers.point_eq.trans hpoint
    obtain ⟨hglobals, hothers⟩ := ih hrest hpoint₁ hm₁
    have hstart : Builder.Framed b₁.module none b₁ := ⟨hm₁, .refl b₁.module none, .inl hpoint₁⟩
    have hframe := (lowerEach_keeps_framed rest b₁ hstart).1.frame
    rw [hrest] at hframe
    obtain ⟨hnames, hexists⟩ := hlowers.namesFunction hm
    refine ⟨?_, .cons ?_ hothers⟩
    · rw [hglobals, hlowers.globals_names_eq, globalDefinitions, definitions_topLevel]
      rw [List.flatMap_cons, List.map_append, List.append_assoc]
      rfl
    · have hlast := hnames.of_frame hexists hframe
      unfold Module.NamesFunction at hlast
      rw [definitions_topLevel, functionName?_topLevel] at hlast
      exact hlast

namespace Module

/-- If the new globals of a module are those of certain definitions in order, each of these names
is found for its own. -/
theorem Consistent.lookup?_definition {m after : Module} (hafter : after.Consistent)
    {definitions : List (String × Expr)}
    (hnames : after.globals.map Global.name =
      m.globals.map Global.name ++ definitions.map Prod.fst)
    {index : Nat} {name : String} {value : Expr} (h : definitions[index]? = some (name, value)) :
    after.lookup? name = some (.global (m.globals.length + index)) := by
  have hname : (after.globals.map Global.name)[m.globals.length + index]? = some name := by
    have hlength : (m.globals.map Global.name).length = m.globals.length := List.length_map _
    rw [hnames, ← hlength]
    rw [List.getElem?_append_right (Nat.le_add_right _ _), Nat.add_sub_cancel_left]
    rw [List.getElem?_map, h]
    rfl
  rw [List.getElem?_map] at hname
  exact hafter.lookup?_eq_some hname

/-- What a source that compiles defines, in whatever module: each definition of a double is bound
to a new global of its own, and each definition of a function belongs to the value of its
expression, which is bound to the outermost name of the chain and to no other. -/
theorem compile_binds_definitions (name : String) (requests : List Request) (source : String)
    {values : List Value} (h : ((ofRequests name requests).compile source).result = .ok values) :
    let before := ofRequests name requests
    let after := (before.compile source).module
    ∃ exprs, parseSource source = .ok exprs ∧
      (∀ index defined value,
        (exprs.flatMap globalDefinitions)[index]? = some (defined, value) →
        after.lookup? defined = some (.global (before.globals.length + index))) ∧
      List.Forall₂ after.NamesFunction exprs values := by
  intro before after
  have hm : before.Consistent := consistent_invariant.ofRequests consistent_empty name requests
  have hanswer : (before.answer (.compile source)).1 = .ok values := h
  obtain ⟨exprs, b, hparse, hlower, hmodule⟩ := answer_eq_ok hanswer
  have hafter : after = b.module := hmodule
  obtain ⟨hglobals, hfunctions⟩ := lowerEach_binds_definitions hlower rfl hm
  refine ⟨exprs, hparse, fun index defined value hdefined => ?_, hafter ▸ hfunctions⟩
  have hconsistent : after.Consistent := hm.answers [.compile source]
  refine hconsistent.lookup?_definition ?_ hdefined
  rw [hafter, hglobals]
  rfl

/-- Definitions as operands, in a body and in a chain. -/
theorem compile_binds_definitions_chain :
    let source := "(define a (define b (lambda (x) (+ x (define c 2))))) (* c (define d 1))"
    let before := ofRequests "m" []
    let after := (before.compile source).module
    (before.compile source).result = .ok [.function 0, .function 1] ∧
    ∃ exprs, parseSource source = .ok exprs ∧
      (∀ index defined value,
        (exprs.flatMap globalDefinitions)[index]? = some (defined, value) →
        after.lookup? defined = some (.global (before.globals.length + index))) ∧
      List.Forall₂ after.NamesFunction exprs [.function 0, .function 1] := by
  intro source before after
  have hcompiles : (before.compile source).result = .ok [.function 0, .function 1] := by
    decide +kernel
  exact ⟨hcompiles, compile_binds_definitions "m" [] source hcompiles⟩

/-- The inner name of a chain that ends in a lambda has been defined, and is bound to nothing. -/
theorem exists_definition_lost :
    let source := "(define a (define b (lambda (x) x)))"
    let before := ofRequests "m" []
    (before.compile source).result = .ok [.function 0] ∧
      (parseSource source).toOption.map
        (fun exprs => (exprs.flatMap definitions).map Prod.fst) = some ["b", "a"] ∧
      (before.compile source).module.lookup? "b" = none := by
  decide +kernel

end Module

end LambdaArith
