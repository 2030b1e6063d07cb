import LambdaArith.Proofs.Bodies
import LambdaArith.Proofs.Sessions
import LambdaArith.Proofs.Uses

/-!
# Sessions make well-formed functions

A function that is lowered is filled from the first instruction to the return before anything else
is made of it, and lowering hands every result on to what it is an operand of. So the functions of a
session are in static single assignment form, and compute nothing that they do not use.
-/

namespace LambdaArith

/-- The builder fills the last function of its module, behind functions that are left alone. -/
structure Builder.Fills (b : Builder) (others : List Func) (pending : List Value) : Prop where
  point_eq : b.point = some ⟨others.length, 0⟩
  exists_filling : ∃ f, b.module.functions = others ++ [f] ∧
    f.Filling others.length b.module.globals.length pending

namespace Builder.Fills

variable {b : Builder} {others : List Func} {pending : List Value} {value : Value}

/-- A value that is no result can be pending in addition, if it is available. -/
theorem push (h : b.Fills others pending)
    (havailable : ∀ f, b.module.functions = others ++ [f] →
      value.Available f others.length b.module.globals.length f.instructions.length)
    (hresult : value.isResult = false) : b.Fills others (pending ++ [value]) := by
  obtain ⟨hpoint, f, hfunctions, hf⟩ := h
  exact ⟨hpoint, f, hfunctions, hf.push (havailable f hfunctions) hresult⟩

/-- The last value that is pending can be forgotten if it is no result. -/
theorem pop (h : b.Fills others (pending ++ [value])) (hresult : value.isResult = false) :
    b.Fills others pending := by
  obtain ⟨hpoint, f, hfunctions, hf⟩ := h
  exact ⟨hpoint, f, hfunctions, hf.pop hresult⟩

/-- An instruction comes to the end of the function that is filled. -/
theorem append_eq_ok (h : b.Fills others pending) {p : InsertPoint} (hp : b.point = some p)
    {wanted : Option String} {action : Action} {m : Module}
    (happend : b.module.append p wanted action = .ok (value, m)) :
    ∃ f : Func, f.Filling others.length b.module.globals.length pending ∧
      value = .result others.length f.instructions.length ∧
      m.functions = others ++ [f.append 0 wanted action] ∧ m.globals = b.module.globals := by
  obtain ⟨hpoint, f, hfunctions, hf⟩ := h
  rw [hpoint, Option.some.injEq] at hp
  subst hp
  obtain ⟨g, _, hg, _, _, rfl, rfl⟩ := Module.append_eq_ok happend
  rw [hfunctions, List.getElem?_concat_length, Option.some.injEq] at hg
  subst hg
  refine ⟨f, hf, rfl, ?_, rfl⟩
  simp [hfunctions]

/-- A global takes the place of the double that it is initialized with, which is no result. -/
theorem addGlobal {initializer : Value} (h : b.Fills others (pending ++ [initializer]))
    {name : String} {m : Module} (hadd : b.module.addGlobal name initializer = .ok (value, m))
    (event : Event) : (b.advance m event).Fills others (pending ++ [value]) := by
  obtain ⟨x, hinitial, _, rfl, rfl⟩ := Module.addGlobal_eq_ok hadd
  have hresult : initializer.isResult = false := by
    rcases Module.initialValue_eq_ok.mp hinitial with rfl | ⟨id, rfl, _⟩
    · rfl
    · rfl
  obtain ⟨hpoint, f, hfunctions, hf⟩ := h.pop hresult
  have hglobals : b.module.globals.length < (b.module.globals ++ [Global.mk name x]).length := by
    simp
  exact ⟨hpoint, f, hfunctions, (hf.mono (Nat.le_of_lt hglobals)).push hglobals rfl⟩

end Builder.Fills

/-- A new function is filled behind the functions that are there. -/
theorem Builder.fills_enter (b : Builder) (parameters : List String) :
    (b.enter parameters).Fills b.module.functions [] :=
  ⟨rfl, _, rfl, Func.filling_declare parameters _ _⟩

/-- What an identifier stands for is available in the function that is filled, and is no result. -/
theorem Builder.Fills.available_of_resolve {b : Builder} {others : List Func}
    {pending : List Value} (h : b.Fills others pending) (hm : b.module.Consistent) {name : String}
    {resolution : Resolution}
    (hresolve : b.module.resolve (b.point.map InsertPoint.function) name = some resolution)
    {f : Func} (hf : b.module.functions = others ++ [f]) :
    resolution.value.Available f others.length b.module.globals.length f.instructions.length ∧
      resolution.value.isResult = false := by
  rw [h.point_eq, Option.map_some] at hresolve
  rcases Module.resolve_eq_some hresolve with ⟨id, index, hid, hindex, rfl⟩ | ⟨_, id, hlookup, rfl⟩
  · rw [Option.some.injEq] at hid
    have hnames : b.module.parameterNames (some others.length) = f.parameters := by
      simp only [Module.parameterNames, hf, List.getElem?_concat_length]
    rw [hnames] at hindex
    exact ⟨⟨hid.symm, (List.getElem?_eq_some_iff.mp hindex).1⟩, rfl⟩
  · have hlt : id < b.module.globals.length := of_decide_eq_true (hm.covers_of_lookup? hlookup)
    exact ⟨hlt, rfl⟩

namespace Lowers

variable {b after : Builder} {e : Expr} {value : Value}

/-- Lowering an expression to a double, in a function that is being filled, leaves the double
pending there and uses up all other results that it makes. -/
theorem fills (h : Lowers b e value after) (hvalue : value.isNumeric = true)
    (hm : b.module.Consistent) {others : List Func} {pending : List Value}
    (hb : b.Fills others pending) : after.Fills others (pending ++ [value]) := by
  -- What is pending is a stack: operands are pushed as they are lowered, and taken off in pairs.
  induction h generalizing pending with
  | number => exact hb.push (fun _ _ => trivial) rfl
  | fold op hl _ ihl ihr =>
    have hboth := ihr rfl (hl.consistent hm) (ihl rfl hm hb)
    exact ((hboth.pop rfl).pop rfl).push (fun _ _ => trivial) rfl
  | emit op hl _ hleft hright _ hpoint happend ihl ihr =>
    have hboth := ihr hright (hl.consistent hm) (ihl hleft hm hb)
    rw [List.append_assoc] at hboth
    obtain ⟨f, hf, rfl, hfunctions, hglobals⟩ := hboth.append_eq_ok hpoint happend
    refine ⟨hboth.point_eq, _, hfunctions, ?_⟩
    rw [Builder.advance_module, hglobals]
    exact hf.compute (some op.resultName)
  | named _ hfunction _ _ =>
    rw [Module.isNumeric_of_isFunction hfunction] at hvalue
    cases hvalue
  | defined _ _ hadd ih =>
    have hinner := ih (Module.isNumeric_of_addGlobal hadd) hm hb
    exact hinner.addGlobal hadd _
  -- A lambda is no double, so no other function is begun before this one returns.
  | lambda => cases hvalue
  | identifier hresolve =>
    obtain ⟨f, hfunctions, _⟩ := hb.exists_filling
    have hresult := (hb.available_of_resolve hm hresolve hfunctions).2
    exact hb.push (fun _ hf => (hb.available_of_resolve hm hresolve hf).1) hresult

end Lowers

namespace Module

/-- All functions of the module are complete. -/
def Complete (m : Module) : Prop :=
  ∀ (id : Nat) (f : Func), m.functions[id]? = some f → f.Complete id m.globals.length

variable {m after : Module}

/-- Functions stay complete when there are more globals. -/
theorem Complete.of_functions_eq (hm : m.Complete) (hfunctions : after.functions = m.functions)
    (hglobals : m.globals.length ≤ after.globals.length) : after.Complete := by
  intro id f hf
  rw [hfunctions] at hf
  exact (hm id f hf).mono hglobals

/-- Functions stay complete when a symbol is renamed. -/
theorem Complete.rename (hm : m.Complete) (symbol : Symbol) (name : String) :
    (m.rename symbol name).Complete := by
  have hglobals : (m.rename symbol name).globals.length = m.globals.length := by
    cases symbol with
    | global id => simp [Module.rename]
    | function id => rfl
  intro id f hf
  obtain ⟨g, given, hg, rfl⟩ := exists_of_getElem?_rename hf
  rw [hglobals]
  exact (hm id g hg).named given

/-- Functions stay complete when a complete one comes behind them. -/
theorem Complete.push (hm : m.Complete) {f : Func}
    (hfunctions : after.functions = m.functions ++ [f])
    (hglobals : m.globals.length ≤ after.globals.length)
    (hf : f.Complete m.functions.length after.globals.length) : after.Complete := by
  intro id g hg
  rw [hfunctions] at hg
  rcases getElem?_append_singleton_cases hg with hold | ⟨rfl, rfl⟩
  · exact (hm id g hold).mono hglobals
  · exact hf

end Module

/-- Lowering outside of functions keeps all functions complete. -/
theorem Lowers.complete {b after : Builder} {e : Expr} {value : Value} (h : Lowers b e value after)
    (hpoint : b.point = none) (hm : b.module.Consistent) (hcomplete : b.module.Complete) :
    after.module.Complete := by
  induction h with
  | number => exact hcomplete
  | fold op hl _ ihl ihr =>
    exact ihr (hl.point_eq.trans hpoint) (hl.consistent hm) (ihl hpoint hm hcomplete)
  | emit op hl hr _ _ _ hsome _ _ _ =>
    rw [hr.point_eq, hl.point_eq, hpoint] at hsome
    cases hsome
  | named _ _ hname ih =>
    obtain ⟨symbol, _, _, ⟨_, rfl⟩ | ⟨_, rfl⟩⟩ := Module.setName_eq_ok hname
    · exact ih hpoint hm hcomplete
    · exact (ih hpoint hm hcomplete).rename symbol _
  | defined _ _ hadd ih =>
    obtain ⟨_, _, _, _, rfl⟩ := Module.addGlobal_eq_ok hadd
    exact (ih hpoint hm hcomplete).of_functions_eq rfl (by simp)
  | @lambda b _ parameters _ _ _ _ _ _ hbody hvalue hsome happend _ =>
    -- The body is lowered inside a function, where the induction hypothesis says nothing.
    have henter := Builder.consistent_enter hm parameters
    have hglobals := (hbody.globals_prefix henter).length_le
    have hfills := hbody.fills hvalue henter (b.fills_enter parameters)
    obtain ⟨f, hf, _, hfunctions, hsame⟩ := hfills.append_eq_ok hsome happend
    refine hcomplete.push hfunctions ?_ ?_
    · rw [Builder.advance_module, hsame]
      exact hglobals
    · rw [Builder.advance_module, hsame]
      exact hf.ret
  | identifier => exact hcomplete

/-- Lowering a program outside of functions keeps all functions complete. -/
theorem Expr.lowerEach_complete {exprs : List Expr} {b after : Builder} {values : List Value}
    (h : lowerEach exprs b = (.ok values, after)) (hpoint : b.point = none)
    (hm : b.module.Consistent) (hcomplete : b.module.Complete) : after.module.Complete := by
  induction exprs generalizing b values with
  | nil =>
    cases h
    exact hcomplete
  | cons e rest ih =>
    obtain ⟨value, b₁, hfirst, h⟩ := Build.bind_eq_ok.mp h
    obtain ⟨others, b₂, hrest, hpure⟩ := Build.bind_eq_ok.mp h
    cases hpure
    rw [lowerTopLevel_eq] at hfirst
    have hlowers := Lowers.of_lower hfirst
    exact ih hrest (hlowers.point_eq.trans hpoint) (hlowers.consistent hm)
      (hlowers.complete hpoint hm hcomplete)

namespace Module

variable {m : Module}

/-- Calls keep all functions complete. Those that fail leave none behind. -/
theorem Complete.answers (hcomplete : m.Complete) (hm : m.Consistent) (calls : List Call) :
    (m.answers calls).2.Complete := by
  induction calls generalizing m with
  | nil => exact hcomplete
  | cons call rest ih =>
    rcases hm.answer call with ⟨values, hok, _, hafter⟩ | ⟨_, _, hlike, hafter⟩
    · obtain ⟨exprs, b, _, hlower, hmodule⟩ := answer_eq_ok hok
      refine ih ?_ hafter
      rw [hmodule]
      exact Expr.lowerEach_complete hlower rfl hm hcomplete
    · have hglobals := Nat.le_of_eq (congrArg List.length hlike.globals_eq.symm)
      exact ih (hcomplete.of_functions_eq hlike.functions_eq hglobals) hafter

/-- The function `f` at the place `id` of a module is in static single assignment form, and each of
its results is used. -/
structure SingleAssignment (m : Module) (id : Nat) (f : Func) : Prop where
  one_block : ∃ block, f.blocks = [block] ∧
    block.instructions = List.range f.instructions.length
  /-- The last instruction returns, and no other does. -/
  returns_last : ∃ computations value, f.instructions = computations ++ [⟨none, .ret value⟩] ∧
    ∀ instruction ∈ computations, instruction.action.isTerminator = false
  in_scope : f.Scoped id m.globals.length
  /-- No operator has two constants as its operands. -/
  not_constant : ∀ instruction ∈ f.instructions, ∀ op lhs rhs,
    instruction.action = .compute op lhs rhs → ¬ (lhs.isConstant = true ∧ rhs.isConstant = true)
  /-- Each result is an operand once in the whole module, of a later instruction of `f`. -/
  used_once : ∀ (index : Nat) (instruction : Instruction),
    f.instructions[index]? = some instruction → instruction.action.isTerminator = false →
    (∃ later, index < later ∧ f.uses (.result id index) = [later]) ∧
      ∀ other g, other ≠ id → m.functions[other]? = some g → g.uses (.result id index) = []

/-- Whatever has been compiled and lowered in a session, successfully or not: all functions of its
module are in static single assignment form, and each of their results is used. -/
theorem sessions_make_single_assignments (name : String) (calls : List Call) :
    let m := ((empty name).answers calls).2
    ∀ (id : Nat) (f : Func), m.functions[id]? = some f → m.SingleAssignment id f := by
  intro m id f hf
  have hempty : (empty name).Complete := fun _ _ => nofun
  have hm : m.Complete := hempty.answers (consistent_empty name) calls
  have hstructured : m.Structured := structured_invariant.answers (structured_empty name) calls
  have hcomplete := hm id f hf
  refine ⟨⟨_, hcomplete.blocks_eq, rfl⟩, hcomplete.returns, hcomplete.in_scope, ?_, ?_⟩
  · intro instruction hinstruction op lhs rhs haction
    have hemittable := (hstructured f (List.mem_of_getElem? hf)).emittable instruction hinstruction
    rw [haction] at hemittable
    exact hemittable.2.2
  · intro index instruction hinstruction haction
    have hindex := hcomplete.succ_lt hinstruction haction
    refine ⟨hcomplete.exists_uses_eq hindex, fun other g hne hg => ?_⟩
    exact (hm other g hg).in_scope.uses_eq_nil (Ne.symm hne) index

/-- A function that uses a global and defines another as an operand, compiled before one that fails
after its first instruction. -/
theorem sessions_make_single_assignments_product :
    let m := ((empty "m").answers [.compile "(define x 2)",
      .compile "(lambda (a) (* (+ a x) (- a (define y x))))", .compile "(+ (+ x x) a)"]).2
    (∃ f, m.functions[0]? = some f ∧ m.SingleAssignment 0 f) ∧
      m.functions.map (fun f => (List.range 3).map fun index => f.uses (.result 0 index)) =
        [[[2], [2], [3]]] := by
  intro m
  have hlength : 0 < m.functions.length := by decide +kernel
  have hfirst : m.functions[0]? = some m.functions[0] := List.getElem?_eq_getElem hlength
  refine ⟨⟨_, hfirst, sessions_make_single_assignments "m" _ 0 _ hfirst⟩, ?_⟩
  decide +kernel

end Module

end LambdaArith
