import LambdaArith.Proofs.Evaluation
import LambdaArith.Proofs.Placed

/-!
# Lowering preserves meaning

The value that an expression is lowered to is worth what the expression evaluates to, at the
place where it has been lowered and whatever the arguments of the function around it. This is
shown by induction on successful lowering. The invariant is that the module binds the globals
that evaluation goes on with, and that what has been emitted so far can be executed.
-/

namespace LambdaArith

namespace Builder

/-- What the instructions before the insertion point result in. -/
def results? (b : Builder) (function : Nat) (arguments : List Float) : Option Results :=
  match b.point with
  | none => some []
  | some _ => (b.module.functions[function]?).bind fun f =>
    b.module.compute function arguments f.code []

/-- Instructions before the insertion point result in the same when there are more globals. -/
theorem results?_mono {b : Builder} (after : Builder) {function : Nat} {arguments : List Float}
    (hpoint : after.point = b.point) (hfunctions : after.module.functions = b.module.functions)
    (hglobals : b.module.globals <+: after.module.globals) {results : Results}
    (h : b.results? function arguments = some results) :
    after.results? function arguments = some results := by
  unfold results? at h ⊢
  rw [hpoint, hfunctions]
  split at h
  · exact h
  · obtain ⟨f, hf, hcompute⟩ := Option.bind_eq_some_iff.mp h
    exact Option.bind_eq_some_iff.mpr ⟨f, hf, Module.compute_mono hglobals hcompute⟩

/-- An instruction that is added results in the value of its operator on its operands, and the
earlier results stay. -/
theorem Placed.results?_append {b : Builder} {function : Nat} {parameters : List String}
    (h : b.Placed function parameters) {p : InsertPoint} (hp : b.point = some p)
    {wanted : Option String} {op : Operator} {left right value : Value} {m : Module}
    (happend : b.module.append p wanted (.compute op left right) = .ok (value, m)) (event : Event)
    {arguments : List Float} {results : Results}
    (hresults : b.results? function arguments = some results) {x y : Float}
    (hx : b.module.operand function arguments results left = some x)
    (hy : b.module.operand function arguments results right = some y) :
    ∃ more, (b.advance m event).results? function arguments = some more ∧
      (∀ index z, results.lookup index = some z → more.lookup index = some z) ∧
      m.operand function arguments more value = some (op.apply x y) := by
  obtain ⟨f, rfl, hf, _, hopen, rfl, hglobals, _, hafter⟩ := h.append_eq_ok hp happend
  have hprefix : b.module.globals <+: m.globals := hglobals ▸ List.prefix_rfl
  have hcompute : b.module.compute function arguments f.code [] = some results := by
    simpa only [results?, hp, hf, Option.bind_some] using hresults
  refine ⟨(f.instructions.length, op.apply x y) :: results, ?_, ?_, ?_⟩
  · have hfirst := Module.compute_mono hprefix hcompute
    have hx' := Module.operand_mono hprefix (fun _ _ h => h) hx
    have hy' := Module.operand_mono hprefix (fun _ _ h => h) hy
    simp only [results?, advance_point, advance_module, hp, hafter, Option.bind_some]
    rw [hopen.code_append, Module.compute_append hfirst]
    simp only [Module.compute, hx', hy', Option.bind_eq_bind, Option.bind_some]
  · intro index z hz
    rcases Module.mem_of_compute hcompute hz with hmem | hnone
    · rw [List.lookup_cons, beq_false_of_ne (Nat.ne_of_lt (hopen.lt_of_mem_code hmem))]
      exact hz
    · cases hnone
  · simp [Module.operand]

/-- Between two builders an expression is carried out: whatever the arguments of the function
around it, earlier results stay, and the value is worth what the expression evaluates to. -/
def CarriesOut (b after : Builder) (function : Nat) (parameters : List String) (e : Expr)
    (value : Value) (globals bound : Bindings) : Prop :=
  ∀ arguments : List Float, arguments.length = parameters.length → ∀ results,
    b.results? function arguments = some results → ∃ more x,
      after.results? function arguments = some more ∧
      (∀ index y, results.lookup index = some y → more.lookup index = some y) ∧
      e.evaluate (parameters.zip arguments) globals = some (x, bound) ∧
      after.module.operand function arguments more value = some x

section CarriesOut

variable {b b₁ b₂ : Builder} {function : Nat} {parameters : List String} {lhs rhs e : Expr}
  {left right value : Value} {globals bound₁ bound₂ : Bindings}

/-- A number is worth itself, and nothing happens. -/
theorem carriesOut_number (x : Float) :
    b.CarriesOut b function parameters (.number x) (.constant x) globals globals :=
  fun _ _ results hresults => ⟨results, x, hresults, fun _ _ h => h, rfl, rfl⟩

/-- Two constants are computed with at once. -/
theorem CarriesOut.fold {x y : Float}
    (hl : b.CarriesOut b₁ function parameters lhs (.constant x) globals bound₁)
    (hr : b₁.CarriesOut b₂ function parameters rhs (.constant y) bound₁ bound₂) (op : Operator) :
    b.CarriesOut b₂ function parameters (.binary op lhs rhs) (.constant (op.apply x y)) globals
      bound₂ := by
  intro arguments hlength results hresults
  obtain ⟨results₁, x', hresults₁, hkept₁, hx, hworth⟩ := hl arguments hlength _ hresults
  obtain ⟨results₂, y', hresults₂, hkept₂, hy, hworth'⟩ := hr arguments hlength _ hresults₁
  cases hworth
  cases hworth'
  refine ⟨results₂, _, hresults₂, fun i z hz => hkept₂ i z (hkept₁ i z hz), ?_, rfl⟩
  simp only [Expr.evaluate, hx, hy, Option.bind_eq_bind, Option.bind_some]
  rfl

/-- An operator on other doubles is carried out by its instruction. The left operand is still
worth the same when the right one has been lowered. -/
theorem CarriesOut.emit (hl : b.CarriesOut b₁ function parameters lhs left globals bound₁)
    (hr : b₁.CarriesOut b₂ function parameters rhs right bound₁ bound₂)
    (hglobals : b₁.module.globals <+: b₂.module.globals)
    (hplaced : b₂.Placed function parameters) {p : InsertPoint} (hpoint : b₂.point = some p)
    {wanted : Option String} {op : Operator} {m : Module}
    (happend : b₂.module.append p wanted (.compute op left right) = .ok (value, m))
    (event : Event) :
    b.CarriesOut (b₂.advance m event) function parameters (.binary op lhs rhs) value globals
      bound₂ := by
  intro arguments hlength results hresults
  obtain ⟨results₁, x, hresults₁, hkept₁, hx, hworth⟩ := hl arguments hlength _ hresults
  obtain ⟨results₂, y, hresults₂, hkept₂, hy, hworth'⟩ := hr arguments hlength _ hresults₁
  have hworth₂ := Module.operand_mono hglobals hkept₂ hworth
  obtain ⟨more, hmore, hkept, hresult⟩ :=
    hplaced.results?_append hpoint happend event hresults₂ hworth₂ hworth'
  refine ⟨more, _, hmore, fun i z hz => hkept i z (hkept₂ i z (hkept₁ i z hz)), ?_, hresult⟩
  simp only [Expr.evaluate, hx, hy, Option.bind_eq_bind, Option.bind_some]
  rfl

/-- A new global is worth what it is initialized with. -/
theorem CarriesOut.addGlobal (he : b.CarriesOut b₁ function parameters e value globals bound₁)
    {name : String} {global : Value} {m : Module} {x : Float}
    (hadd : b₁.module.addGlobal name value = .ok (global, m))
    (hinitial : b₁.module.initialValue name value = .ok x) (event : Event) :
    b.CarriesOut (b₁.advance m event) function parameters (.define name e) global globals
      ((name, x) :: bound₁) := by
  obtain ⟨x', hinitial', _, hglobal, hafter⟩ := Module.addGlobal_eq_ok hadd
  rw [hinitial, Except.ok.injEq] at hinitial'
  subst hinitial'
  have hglobals : b₁.module.globals <+: m.globals := by
    rw [hafter]
    exact List.prefix_append _ _
  have hfunctions : m.functions = b₁.module.functions := by rw [hafter]
  intro arguments hlength results hresults
  obtain ⟨results₁, y, hresults₁, hkept, hy, hworth⟩ := he arguments hlength _ hresults
  have hsame : y = x := by
    rcases Module.initialValue_eq_ok.mp hinitial with rfl | ⟨id, rfl, hid⟩
    · cases hworth
      rfl
    · exact Option.some.inj (hworth.symm.trans hid)
  subst hsame
  have hresults₁' := results?_mono (b := b₁) (b₁.advance m event) rfl hfunctions hglobals hresults₁
  refine ⟨results₁, y, hresults₁', hkept, ?_, ?_⟩
  · simp only [Expr.evaluate, hy, Option.bind_eq_bind, Option.bind_some]
    rfl
  · rw [hglobal]
    simp [Module.operand, Module.initializer?, hafter]

/-- An identifier is worth its argument if it is a parameter, else the global of the name. -/
theorem carriesOut_identifier (hplaced : b.Placed function parameters)
    (hnodup : parameters.Nodup) (hm : b.module.Consistent) (hglobals : b.module.Binds globals)
    {name : String} {resolution : Resolution}
    (h : b.module.resolve (b.point.map InsertPoint.function) name = some resolution) :
    b.CarriesOut b function parameters (.identifier name) resolution.value globals globals := by
  intro arguments hlength results hresults
  have hnames := hplaced.parameterNames_eq
  rcases Module.resolve_eq_some h with ⟨id, index, hid, hindex, rfl⟩ | ⟨hname, id, hid, rfl⟩
  · rw [hnames] at hindex
    have hlt : index < arguments.length := by
      rw [hlength]
      exact (List.getElem?_eq_some_iff.mp hindex).1
    have hargument := List.getElem?_eq_getElem hlt
    have howner : id = function := by
      cases hplaced with
      | outside hnone _ => simp [hnone] at hid
      | inside hsome _ _ _ => simpa [hsome] using hid.symm
    refine ⟨results, arguments[index], hresults, fun _ _ h => h, ?_, ?_⟩
    · simp only [Expr.evaluate, lookup_zip_eq_getElem? hnodup hlength hindex, hargument]
      rfl
    · simp only [Resolution.value, Module.operand, howner, if_true, hargument]
  · rw [hnames] at hname
    obtain ⟨x, hx, hinitial⟩ := hglobals.lookup_eq_some hm hid
    refine ⟨results, x, hresults, fun _ _ h => h, ?_, hinitial⟩
    simp only [Expr.evaluate, lookup_zip_eq_none hname, hx, Option.none_or,
      Option.bind_eq_bind, Option.bind_some]
    rfl

end CarriesOut

end Builder

/-- An expression that is lowered to a double evaluates to what its value is worth, whatever the
arguments, and binds what is bound in the module afterwards. -/
theorem Lowers.evaluates {b after : Builder} {e : Expr} {value : Value}
    (h : Lowers b e value after) (hvalue : value.isNumeric = true) {function : Nat}
    {parameters : List String} (hplaced : b.Placed function parameters)
    (hnodup : parameters.Nodup) (hm : b.module.Consistent) {globals : Bindings}
    (hglobals : b.module.Binds globals) :
    ∃ bound, after.module.Binds bound ∧
      b.CarriesOut after function parameters e value globals bound := by
  induction h generalizing globals with
  | number b x => exact ⟨globals, hglobals, Builder.carriesOut_number x⟩
  | fold op hl hr ihl ihr =>
    obtain ⟨bound₁, hbound₁, hleft⟩ := ihl rfl hplaced hm hglobals
    obtain ⟨bound₂, hbound₂, hright⟩ := ihr rfl (hl.placed rfl hplaced) (hl.consistent hm) hbound₁
    exact ⟨bound₂, hbound₂, hleft.fold hright op⟩
  | emit op hl hr hln hrn _ hpoint happend ihl ihr =>
    have hplaced₁ := hl.placed hln hplaced
    have hm₁ := hl.consistent hm
    obtain ⟨bound₁, hbound₁, hleft⟩ := ihl hln hplaced hm hglobals
    obtain ⟨bound₂, hbound₂, hright⟩ := ihr hrn hplaced₁ hm₁ hbound₁
    refine ⟨bound₂, hbound₂.append happend, ?_⟩
    exact hleft.emit hright (hr.globals_prefix hm₁) (hr.placed hrn hplaced₁) hpoint happend _
  | named _ hfunction _ _ =>
    rw [Module.isNumeric_of_isFunction hfunction] at hvalue
    cases hvalue
  | @defined _ _ _ _ _ _ name he _ hadd ih =>
    have hnumeric := Module.isNumeric_of_addGlobal hadd
    obtain ⟨bound, hbound, hinner⟩ := ih hnumeric hplaced hm hglobals
    obtain ⟨x, hinitial, _⟩ := Module.addGlobal_eq_ok hadd
    refine ⟨(name, x) :: bound, hbound.addGlobal (he.consistent hm) hadd hinitial, ?_⟩
    exact hinner.addGlobal hadd hinitial _
  | lambda => cases hvalue
  | identifier hresolve =>
    exact ⟨globals, hglobals, Builder.carriesOut_identifier hplaced hnodup hm hglobals hresolve⟩

end LambdaArith
