import LambdaArith.Proofs.Definitions

/-!
# The code of a body

What the body of a lambda becomes can be told from the body alone. Operators on numbers, and on
what those come to, are computed; each of the others becomes an instruction behind those of its
operands. An operand is a constant, a parameter, a global or an earlier result, and where an
expression has its result depends only on how many instructions there have been before.
-/

namespace LambdaArith

/-- The double that a value is, if it is a constant. -/
def Value.constant? : Value → Option Float
  | constant x => some x
  | _ => none

namespace Expr

/-- The double that an expression of numbers and operators comes to. -/
def folded? : Expr → Option Float
  | number x => some x
  | binary op lhs rhs => do return op.apply (← lhs.folded?) (← rhs.folded?)
  | _ => none

/-- The number of operators that become instructions: those that are applied to something else than
numbers and operators. -/
def operations : Expr → Nat
  | binary op lhs rhs =>
    if (binary op lhs rhs).isArithmetic then 0 else lhs.operations + rhs.operations + 1
  | define _ value => value.operations
  | _ => 0

/-- The expressions that come to a double are those of numbers and operators only. -/
theorem isArithmetic_eq (e : Expr) : e.isArithmetic = e.folded?.isSome := by
  induction e with
  | number | define | lambda | identifier => rfl
  | binary op lhs rhs ihl ihr =>
    rw [isArithmetic, folded?, ihl, ihr]
    cases lhs.folded? with
    | none => rfl
    | some x =>
      cases rhs.folded? with
      | none | some => rfl

section Code

variable (m : Module) (function : Nat) (parameters : List String)

/-- The operand that stands for an expression, in a function with these parameters where there have
been `first` instructions before it. -/
def operand (first : Nat) : Expr → Option Value
  | number x => some (.constant x)
  | binary op lhs rhs =>
    match (binary op lhs rhs).folded? with
    | some x => some (.constant x)
    | none => some (.result function (first + lhs.operations + rhs.operations))
  | define name _ => m.global? name
  | lambda _ _ => none
  | identifier name =>
    match parameters.findIdx? fun parameter => parameter = name with
    | some index => some (.parameter function index)
    | none => m.global? name

/-- What the instructions of an expression do: one for each operator that is left, behind those of
its left operand and then those of its right one. -/
def code (first : Nat) : Expr → Option (List Action)
  | binary op lhs rhs =>
    if (binary op lhs rhs).isArithmetic then some [] else do
      let before ← lhs.code first
      let between ← rhs.code (first + lhs.operations)
      let left ← lhs.operand m function parameters first
      let right ← rhs.operand m function parameters (first + lhs.operations)
      return before ++ between ++ [.compute op left right]
  | define _ value => value.code first
  | lambda _ _ => none
  | _ => some []

end Code

variable {m : Module} {function : Nat} {parameters : List String} {e : Expr}

/-- An expression of numbers and operators has no instructions. -/
theorem code_of_isArithmetic (h : e.isArithmetic = true) (first : Nat) :
    e.code m function parameters first = some [] := by
  cases e with
  | number => rfl
  | binary => exact if_pos h
  | define | lambda | identifier => cases h

/-- An expression has as many instructions as it has operators that are left. -/
theorem length_of_code {first : Nat} {actions : List Action}
    (h : e.code m function parameters first = some actions) : actions.length = e.operations := by
  induction e generalizing first actions with
  | number | identifier =>
    cases h
    rfl
  | define name value ih => exact ih h
  | lambda => cases h
  | binary op lhs rhs ihl ihr =>
    unfold code at h
    unfold operations
    split at h
    · cases h
      rw [if_pos ‹_›]
      rfl
    · rw [if_neg ‹_›]
      obtain ⟨before, hbefore, h⟩ := Option.bind_eq_some_iff.mp h
      obtain ⟨between, hbetween, h⟩ := Option.bind_eq_some_iff.mp h
      obtain ⟨left, _, h⟩ := Option.bind_eq_some_iff.mp h
      obtain ⟨right, _, h⟩ := Option.bind_eq_some_iff.mp h
      cases h
      simp only [List.length_append, List.length_singleton, ihl hbefore, ihr hbetween]

/-- From one state of a function to a later one, the code of an expression has been added, and the
value is the operand that stands for it. -/
structure Emits (m : Module) (function : Nat) (parameters : List String) (e : Expr) (f g : Func)
    (value : Value) : Prop where
  code_added : ∃ actions, e.code m function parameters f.instructions.length = some actions ∧
    g.actions = f.actions ++ actions
  operand_eq : e.operand m function parameters f.instructions.length = some value

variable {f g : Func} {value : Value}

/-- The instructions of an expression are counted. -/
theorem Emits.length_eq (h : e.Emits m function parameters f g value) :
    g.instructions.length = f.instructions.length + e.operations := by
  obtain ⟨actions, hcode, hadded⟩ := h.code_added
  have hlength := congrArg List.length hadded
  rw [List.length_append, Func.actions, Func.actions, List.length_map, List.length_map] at hlength
  rw [hlength, length_of_code hcode]

/-- An expression of numbers and operators adds nothing. -/
theorem Emits.actions_eq (h : e.Emits m function parameters f g value)
    (he : e.isArithmetic = true) : g.actions = f.actions := by
  obtain ⟨actions, hcode, hadded⟩ := h.code_added
  rw [code_of_isArithmetic he] at hcode
  cases hcode
  rw [hadded, List.append_nil]

/-- What needs no instruction emits nothing. -/
theorem Emits.of_code_nil (hcode : ∀ first, e.code m function parameters first = some [])
    (hoperand : ∀ first, e.operand m function parameters first = some value) :
    e.Emits m function parameters f f value :=
  ⟨⟨[], hcode _, (List.append_nil _).symm⟩, hoperand _⟩

variable {lhs rhs : Expr} {f₁ f₂ : Func} {left right : Value}

/-- An operator on numbers and operators only emits nothing, and stands for a constant. -/
theorem Emits.fold (op : Operator) {x y : Float} (hlhs : lhs.folded? = some x)
    (hrhs : rhs.folded? = some y) (hl : lhs.Emits m function parameters f f₁ left)
    (hr : rhs.Emits m function parameters f₁ g right) :
    (binary op lhs rhs).Emits m function parameters f g (.constant (op.apply x y)) := by
  have hleft : lhs.isArithmetic = true := by rw [isArithmetic_eq, hlhs]; rfl
  have hright : rhs.isArithmetic = true := by rw [isArithmetic_eq, hrhs]; rfl
  have hfolded : (binary op lhs rhs).folded? = some (op.apply x y) := by
    rw [folded?, hlhs, hrhs]
    rfl
  have hboth : (binary op lhs rhs).isArithmetic = true := by rw [isArithmetic_eq, hfolded]; rfl
  refine ⟨⟨[], code_of_isArithmetic hboth _, ?_⟩, ?_⟩
  · rw [hr.actions_eq hright, hl.actions_eq hleft, List.append_nil]
  · rw [operand, hfolded]

/-- Any other operator emits its instruction behind those of its operands, and stands for what that
results in. -/
theorem Emits.emit {op : Operator} (hnot : (binary op lhs rhs).isArithmetic = false)
    (hl : lhs.Emits m function parameters f f₁ left)
    (hr : rhs.Emits m function parameters f₁ f₂ right) (wanted : Option String) :
    (binary op lhs rhs).Emits m function parameters f (f₂.append 0 wanted (.compute op left right))
      (.result function f₂.instructions.length) := by
  obtain ⟨before, hbefore, haddedl⟩ := hl.code_added
  obtain ⟨between, hbetween, haddedr⟩ := hr.code_added
  have hleft := hl.operand_eq
  have hright := hr.operand_eq
  rw [hl.length_eq] at hbetween hright
  have hfolded : (binary op lhs rhs).folded? = none := by
    rw [← Option.isSome_eq_false_iff.trans Option.isNone_iff_eq_none, ← isArithmetic_eq, hnot]
  refine ⟨⟨before ++ between ++ [.compute op left right], ?_, ?_⟩, ?_⟩
  · rw [code, hnot, if_neg Bool.false_ne_true, hbefore, hbetween, hleft, hright]
    rfl
  · rw [Func.actions_append, haddedr, haddedl, List.append_assoc, List.append_assoc]
    rw [← List.append_assoc before]
  · rw [operand, hfolded, hr.length_eq, hl.length_eq]

/-- A definition emits what its value does, and stands for the global with its name. -/
theorem Emits.define {name : String} {global : Value} (hglobal : m.global? name = some global)
    (he : e.Emits m function parameters f g value) :
    (define name e).Emits m function parameters f g global :=
  ⟨he.code_added, hglobal⟩

end Expr

/-- What is added leaves the globals under their names. -/
theorem Module.Frame.global?_mono {base m : Module} {point : Option InsertPoint}
    (h : base.Frame point m) (hbase : base.Consistent) {name : String} {global : Value}
    (hglobal : base.global? name = some global) : m.global? name = some global := by
  obtain ⟨id, hlookup, rfl⟩ := global?_eq_some_iff.mp hglobal
  have hcovers := hbase.covers_of_lookup? hlookup
  exact global?_eq_some_iff.mpr ⟨id, (h.lookup?_iff _ _ hcovers).mpr hlookup, rfl⟩

/-- A global that has been added is found under its name. -/
theorem Module.global?_addGlobal {m after : Module} {name : String} {initializer value : Value}
    (h : m.addGlobal name initializer = .ok (value, after)) : after.global? name = some value := by
  obtain ⟨_, _, _, rfl, rfl⟩ := addGlobal_eq_ok h
  refine global?_eq_some_iff.mpr ⟨m.globals.length, ?_, rfl⟩
  exact SymbolTable.find?_insert_eq_some_iff.mpr (.inl ⟨rfl, rfl⟩)

/-- An instruction leaves the globals under their names. -/
theorem Module.global?_append {m after : Module} {point : InsertPoint} {wanted : Option String}
    {action : Action} {value : Value} (h : m.append point wanted action = .ok (value, after))
    (name : String) : after.global? name = m.global? name := by
  obtain ⟨_, _, _, _, _, _, rfl⟩ := append_eq_ok h
  rfl

namespace Lowers

open LambdaArith.Expr

variable {b after : Builder} {e : Expr} {value : Value}

/-- An expression becomes a constant exactly if it is built of numbers and operators, and then the
one that it comes to. -/
theorem constant?_eq (h : Lowers b e value after) : value.constant? = e.folded? := by
  induction h with
  | number => rfl
  | fold op _ _ ihl ihr => rw [folded?, ← ihl, ← ihr]; rfl
  | @emit _ _ _ lhs rhs left right _ _ _ op _ _ _ _ hnot _ happend ihl ihr =>
    obtain ⟨_, _, _, _, _, rfl, _⟩ := Module.append_eq_ok happend
    rw [folded?, ← ihl, ← ihr]
    cases left with
    | constant x =>
      cases right with
      | constant y => exact absurd ⟨rfl, rfl⟩ hnot
      | _ => rfl
    | _ => rfl
  | @named _ _ _ value _ _ _ hfunction _ _ =>
    cases value with
    | function => rfl
    | _ => cases hfunction
  | defined _ _ hadd _ =>
    obtain ⟨_, _, _, rfl, _⟩ := Module.addGlobal_eq_ok hadd
    rfl
  | lambda => rfl
  | @identifier _ _ resolution hresolve =>
    rcases Module.resolve_eq_some hresolve with ⟨_, _, _, _, rfl⟩ | ⟨_, _, _, rfl⟩
    · rfl
    · rfl

/-- Lowering leaves the globals under their names. -/
theorem global?_mono (h : Lowers b e value after) (hm : b.module.Consistent) {name : String}
    {global : Value} (hglobal : b.module.global? name = some global) :
    after.module.global? name = some global :=
  (h.framed (Builder.framed_self hm)).1.frame.global?_mono hm hglobal

/-- An identifier is lowered to its operand. -/
theorem operand_identifier {function : Nat} {parameters : List String}
    (hb : b.Placed function parameters) {name : String} {resolution : Resolution}
    (hresolve : b.module.resolve (b.point.map InsertPoint.function) name = some resolution)
    {m : Module}
    (hglobals : ∀ name global, b.module.global? name = some global → m.global? name = some global)
    (first : Nat) :
    (Expr.identifier name).operand m function parameters first = some resolution.value := by
  rw [Module.resolve_eq, hb.parameterNames_eq] at hresolve
  rw [operand]
  cases hindex : parameters.findIdx? fun parameter => parameter = name with
  | some index =>
    cases hb with
    | outside _ hparameters =>
      rw [hparameters] at hindex
      cases hindex
    | inside hpoint =>
      rw [hpoint, hindex] at hresolve
      cases hresolve
      rfl
  | none =>
    have hglobal : (b.module.global? name).map Resolution.global = some resolution := by
      rw [hindex] at hresolve
      cases hpoint : b.point.map InsertPoint.function with
      | none | some => rwa [hpoint] at hresolve
    obtain ⟨global, hfound, rfl⟩ := Option.map_eq_some_iff.mp hglobal
    exact hglobals name global hfound

/-- Lowering an expression to a double emits its code and gives the operand that stands for it,
also as seen from a later module. -/
theorem emits (h : Lowers b e value after) (hvalue : value.isNumeric = true)
    (hm : b.module.Consistent) {function : Nat} {parameters : List String}
    (hb : b.Placed function parameters) {f : Func} (hf : b.module.functions[function]? = some f)
    {m : Module}
    (hglobals : ∀ name global, after.module.global? name = some global →
      m.global? name = some global) :
    ∃ g, after.module.functions[function]? = some g ∧
      e.Emits m function parameters f g value := by
  -- Globals are looked up in the last module, so each part hands on what has been found before it.
  induction h generalizing f with
  | number => exact ⟨f, hf, .of_code_nil (fun _ => rfl) fun _ => rfl⟩
  | fold op hl hr ihl ihr =>
    have hm₁ := hl.consistent hm
    have hmiddle := fun name global hglobal => hglobals name global (hr.global?_mono hm₁ hglobal)
    obtain ⟨f₁, hf₁, hleft⟩ := ihl rfl hm hb hf hmiddle
    obtain ⟨g, hg, hright⟩ := ihr rfl hm₁ (hl.placed rfl hb) hf₁ hglobals
    exact ⟨g, hg, .fold op hl.constant?_eq.symm hr.constant?_eq.symm hleft hright⟩
  | @emit _ _ b₂ lhs rhs _ _ _ _ m' op hl hr hln hrn hnot hpoint happend ihl ihr =>
    have hm₁ := hl.consistent hm
    have hboth := hr.placed hrn (hl.placed hln hb)
    obtain ⟨f₂, rfl, hf₂, _, _, rfl, _, _, hlast⟩ := hboth.append_eq_ok hpoint happend
    have hlater := fun name global hglobal =>
      hglobals name global ((Module.global?_append happend name).trans hglobal)
    have hmiddle := fun name global hglobal => hlater name global (hr.global?_mono hm₁ hglobal)
    obtain ⟨f₁, hf₁, hleft⟩ := ihl hln hm hb hf hmiddle
    obtain ⟨f₂', hf₂', hright⟩ := ihr hrn hm₁ (hl.placed hln hb) hf₁ hlater
    rw [hf₂, Option.some.injEq] at hf₂'
    subst hf₂'
    have harithmetic : (binary op lhs rhs).isArithmetic = false := by
      rw [isArithmetic, ← hl.isConstant_eq, ← hr.isConstant_eq]
      exact Bool.eq_false_iff.mpr fun hconstant => hnot (Bool.and_eq_true_iff.mp hconstant)
    exact ⟨_, hlast, hleft.emit harithmetic hright _⟩
  | named _ hfunction _ _ =>
    rw [Module.isNumeric_of_isFunction hfunction] at hvalue
    cases hvalue
  | @defined b b₁ e value global m' name he hfunction hadd ih =>
    have hframe := (Module.Frame.refl b₁.module none).addGlobal hadd
    have hmiddle := fun name global hglobal =>
      hglobals name global (hframe.global?_mono (he.consistent hm) hglobal)
    obtain ⟨g, hg, hinner⟩ := ih (Module.isNumeric_of_addGlobal hadd) hm hb hf hmiddle
    have hnew := hglobals name global (Module.global?_addGlobal hadd)
    obtain ⟨_, _, _, _, rfl⟩ := Module.addGlobal_eq_ok hadd
    exact ⟨g, hg, hinner.define hnew⟩
  | lambda => cases hvalue
  | identifier hresolve =>
    exact ⟨f, hf, .of_code_nil (fun _ => rfl) (operand_identifier hb hresolve hglobals)⟩

end Lowers

/-- All definitions in an expression that becomes a double make globals. -/
theorem Lowers.globalDefinitions_eq {b after : Builder} {e : Expr} {value : Value}
    (h : Lowers b e value after) (hvalue : value.isNumeric = true) :
    e.globalDefinitions = e.definitions := by
  refine List.filter_eq_self.mpr fun definition hmem => Option.isNone_iff_eq_none.mpr ?_
  by_contra hinner
  exact h.lambda?_ne_none_of_mem hmem hinner (h.lambda?_eq_none_iff.mpr hvalue)

namespace Module

/-- What a lambda becomes, wherever it is lowered: a function with the parameters that are written
and with the code of the body, which ends by returning the operand that stands for the body. The
definitions in the body make the new globals, in order. -/
theorem lambda_becomes_post_order_code (name : String) (requests : List Request)
    (point : Option InsertPoint) (events : List Event) (parameters : List String) (body : Expr)
    {value : Value} {after : Builder}
    (h : (Expr.lambda parameters body).lower ⟨ofRequests name requests, point, events⟩ =
      (.ok value, after)) :
    let before := ofRequests name requests
    let id := before.functions.length
    value = .function id ∧
      after.module.parameters id =
        parameters.zipIdx.map (fun (parameter, index) => (parameter, .parameter id index)) ∧
      (∃ actions result, body.code after.module id parameters 0 = some actions ∧
        actions.length = body.operations ∧
        body.operand after.module id parameters 0 = some result ∧
        (after.module.instructions id).map Instruction.action = actions ++ [.ret result]) ∧
      ∀ index defined inner, body.definitions[index]? = some (defined, inner) →
        after.module.global? defined = some (.global (before.globals.length + index)) := by
  intro before id
  have hm : before.Consistent := consistent_invariant.ofRequests consistent_empty name requests
  cases Lowers.of_lower h with
  | @lambda _ b₁ _ _ result _ _ m hdistinct hbody hvalue hpoint happend =>
    have hnodup := firstRepeated_nil_eq_none_iff.mp hdistinct
    have henter := Builder.consistent_enter hm parameters
    have hstart := Builder.placed_enter ⟨before, point, events⟩ hnodup
    obtain ⟨g, rfl, hg, hparameters, hopen, _, hglobals, _, hlast⟩ :=
      (hbody.placed hvalue hstart).append_eq_ok hpoint happend
    have hnew : (Builder.enter ⟨before, point, events⟩ parameters).module.functions[id]? =
        some ((Func.declare parameters).appendBlock "entry") := by
      simp [Builder.enter, Module.openFunction, id]
    have hknown : ∀ name global, b₁.module.global? name = some global →
        m.global? name = some global := fun name _ hglobal =>
      (global?_append happend name).trans hglobal
    obtain ⟨g', hg', hemits⟩ := hbody.emits hvalue henter hstart hnew hknown
    rw [hg, Option.some.injEq] at hg'
    subst hg'
    obtain ⟨actions, hcode, hadded⟩ := hemits.code_added
    refine ⟨rfl, ?_, ⟨actions, result, hcode, Expr.length_of_code hcode, hemits.operand_eq, ?_⟩, ?_⟩
    · have hnames : (g.append 0 none (.ret result)).parameters = parameters := hparameters
      simp only [Module.parameters, Builder.advance_module, id, hlast, hnames]
    · have hstraight := hopen.toStraight.append none (.ret result)
      simp only [Module.instructions, Builder.advance_module, id, hlast]
      rw [hstraight.orderedInstructions_eq, ← Func.actions, Func.actions_append, hadded]
      rfl
    · intro index defined inner hdefined
      have hafter : m.Consistent := (hbody.consistent henter).append happend
      have hnames := hbody.globals_names_eq
      rw [hbody.globalDefinitions_eq hvalue, ← hglobals] at hnames
      have hfound := hafter.lookup?_definition hnames hdefined
      exact global?_eq_some_iff.mpr ⟨_, hfound, rfl⟩

/-- A body with a constant that is folded, a definition as an operand and an earlier global. -/
theorem lambda_becomes_post_order_code_folding :
    let before := ofRequests "m" [.call (.compile "(define k 3)")]
    let body := Expr.binary .add
      (.binary .mul (.identifier "x") (.binary .add (.number 1) (.number 2)))
      (.binary .sub (.define "y" (.number 2)) (.identifier "k"))
    let lowered := (Expr.lambda ["x"] body).lower ⟨before, none, []⟩
    lowered.1 = .ok (.function 0) ∧ body.operations = 3 ∧
      ∃ actions result, body.code lowered.2.module 0 ["x"] 0 = some actions ∧
        actions.length = body.operations ∧
        body.operand lowered.2.module 0 ["x"] 0 = some result ∧
        (lowered.2.module.instructions 0).map Instruction.action = actions ++ [.ret result] := by
  intro before body lowered
  have hvalue : lowered.1 = .ok (.function 0) := by decide +kernel
  have hfunctions : before.functions.length = 0 := by decide +kernel
  have hcode := (lambda_becomes_post_order_code "m" [.call (.compile "(define k 3)")] none []
    ["x"] body (Prod.ext hvalue rfl)).2.2.1
  rw [hfunctions] at hcode
  exact ⟨hvalue, rfl, hcode⟩

end Module

end LambdaArith
