import LambdaArith.Proofs.Calls
import LambdaArith.Proofs.Meaning

/-!
# Modules realize programs

A global realizes an expression if it is initialized with its value, and a function realizes one
if it returns for all arguments what the body evaluates to. A module realizes the programs that
have been lowered into it, and goes on doing so whatever is asked of it later.
-/

namespace LambdaArith

namespace Module

/-- A function returns for all arguments what an expression evaluates to, which binds the same
for all of them. -/
structure Computes (m : Module) (id : Nat) (parameters : List String) (body : Expr)
    (before bound : Bindings) : Prop where
  parameters_eq : (m.parameters id).map Prod.fst = parameters
  call_eq : ∀ arguments : List Float, arguments.length = parameters.length → ∃ x,
    body.evaluate (parameters.zip arguments) before = some (x, bound) ∧
      m.call id arguments = some x

/-- A value realizes an expression of a program, before which the given globals have been
bound. -/
def Realizes (m : Module) (before : Bindings) (e : Expr) (value : Value) : Prop :=
  match e.topLevel.lambda? with
  | some (parameters, body) =>
    ∃ id, value = .function id ∧ m.Computes id parameters body before (e.globals before)
  | none =>
    ∃ id x, value = .global id ∧ e.evaluate [] before = some (x, e.globals before) ∧
      m.initializer? id = some x

/-- Values realize the expressions of a program in order. -/
def RealizesEach (m : Module) : Bindings → List Expr → List Value → Prop
  | _, [], [] => True
  | before, e :: exprs, value :: values =>
    m.Realizes before e value ∧ m.RealizesEach (e.globals before) exprs values
  | _, _, _ => False

variable {m after : Module} {before bound : Bindings}

/-- Only functions that exist have something to return. -/
theorem Computes.exists_func {id : Nat} {parameters : List String} {body : Expr}
    (h : m.Computes id parameters body before bound) : ∃ f, m.functions[id]? = some f := by
  obtain ⟨x, _, hcall⟩ := h.call_eq (parameters.map fun _ => 0) (List.length_map _)
  obtain ⟨f, hf, _⟩ := Option.bind_eq_some_iff.mp hcall
  exact ⟨f, hf⟩

/-- What a function computes stays when there are more globals and its code is the same. -/
theorem Computes.mono {id : Nat} {parameters : List String} {body : Expr}
    (h : m.Computes id parameters body before bound) (hglobals : m.globals <+: after.globals)
    (hcode : ∀ f, m.functions[id]? = some f → ∃ g, after.functions[id]? = some g ∧
      g.parameters = f.parameters ∧ g.code = f.code) :
    after.Computes id parameters body before bound where
  parameters_eq := by
    obtain ⟨f, hf⟩ := h.exists_func
    obtain ⟨g, hg, hsame, _⟩ := hcode f hf
    rw [map_fst_parameters hg, hsame, ← map_fst_parameters hf, h.parameters_eq]
  call_eq := by
    intro arguments hlength
    obtain ⟨x, heval, hcall⟩ := h.call_eq arguments hlength
    refine ⟨x, heval, call_mono hglobals (fun f hf => ?_) hcall⟩
    obtain ⟨g, hg, _, hsame⟩ := hcode f hf
    exact ⟨g, hg, hsame⟩

/-- What has been realized stays so when the module grows. -/
theorem Realizes.mono {e : Expr} {value : Value} (h : m.Realizes before e value)
    (hglobals : m.globals <+: after.globals) (hfunctions : m.functions <+: after.functions) :
    after.Realizes before e value := by
  unfold Realizes at h ⊢
  split
  · rename_i heq
    rw [heq] at h
    obtain ⟨id, rfl, hcomputes⟩ := h
    refine ⟨id, rfl, hcomputes.mono hglobals fun f hf => ?_⟩
    exact ⟨f, getElem?_of_prefix hfunctions hf, rfl, rfl⟩
  · rename_i heq
    rw [heq] at h
    obtain ⟨id, x, rfl, heval, hx⟩ := h
    obtain ⟨g, hg, hinitial⟩ := Option.map_eq_some_iff.mp hx
    refine ⟨id, x, rfl, heval, Option.map_eq_some_iff.mpr ⟨g, ?_, hinitial⟩⟩
    exact getElem?_of_prefix hglobals hg

/-- Realized programs stay realized when the module grows. -/
theorem RealizesEach.mono {exprs : List Expr} {values : List Value}
    (h : m.RealizesEach before exprs values) (hglobals : m.globals <+: after.globals)
    (hfunctions : m.functions <+: after.functions) :
    after.RealizesEach before exprs values := by
  induction exprs generalizing before values with
  | nil =>
    cases values with
    | nil => trivial
    | cons => cases h
  | cons e exprs ih =>
    cases values with
    | nil => cases h
    | cons value values => exact ⟨h.1.mono hglobals hfunctions, ih h.2⟩

/-- Naming a function changes nothing of what functions compute. -/
theorem Computes.setName {id : Nat} {parameters : List String} {body : Expr}
    (h : m.Computes id parameters body before bound) {value : Value} {name : String}
    (hvalue : ∃ function, value = .function function) (hok : m.setName value name = .ok after) :
    after.Computes id parameters body before bound := by
  obtain ⟨symbol, hsymbol, _, ⟨_, rfl⟩ | ⟨_, rfl⟩⟩ := setName_eq_ok hok
  · exact h
  · obtain ⟨function, rfl⟩ := hvalue
    cases symbol with
    | global other => cases hsymbol
    | function other =>
      refine h.mono List.prefix_rfl fun f hf => ?_
      by_cases hother : other = id
      · subst hother
        refine ⟨{ f with name := some name }, ?_, rfl, rfl⟩
        simp [rename, hf]
      · refine ⟨f, ?_, rfl, rfl⟩
        simp [rename, List.getElem?_modify_ne _ _ hother, hf]

/-- What evaluation binds is what is bound after the expression. -/
theorem Computes.globals_eq {e : Expr} {id : Nat} {parameters : List String} {body : Expr}
    (h : m.Computes id parameters body before bound)
    (hlambda : e.topLevel.lambda? = some (parameters, body)) : e.globals before = bound := by
  obtain ⟨x, heval, _⟩ := h.call_eq (parameters.map fun _ => 0) (List.length_map _)
  rw [← List.map_prod_left_eq_zip] at heval
  simp only [Expr.globals, hlambda, heval, Option.map_some, Option.getD_some]

end Module

namespace Lowers

variable {b after : Builder} {e : Expr} {value : Value} {before : Bindings}

/-- A lambda becomes a function that computes its body. -/
theorem lambda_computes {parameters : List String} {body : Expr}
    (h : Lowers b (.lambda parameters body) value after) (hm : b.module.Consistent)
    (hbefore : b.module.Binds before) :
    ∃ id bound, value = .function id ∧ after.module.Binds bound ∧
      after.module.Computes id parameters body before bound := by
  cases h with
  | @lambda _ b₁ _ _ result _ p m hdistinct hbody hresult hpoint happend =>
    have hnodup := firstRepeated_nil_eq_none_iff.mp hdistinct
    have hplaced := b.placed_enter hnodup
    have henter := Builder.consistent_enter hm parameters
    have hbinds : (b.enter parameters).module.Binds before :=
      hbefore.of_same (fun _ _ => Iff.rfl) rfl
    have hempty : ∀ arguments,
        (b.enter parameters).results? b.module.functions.length arguments = some [] := by
      intro arguments
      simp [Builder.results?, Builder.enter, Module.openFunction, Func.appendBlock, Func.declare,
        Func.code, Module.compute]
    obtain ⟨bound, hbound, heval⟩ := hbody.evaluates hresult hplaced hnodup henter hbinds
    obtain ⟨f, rfl, hf, hparameters, hopen, _, hglobals, _, hafter⟩ :=
      (hbody.placed hresult hplaced).append_eq_ok hpoint happend
    refine ⟨b.module.functions.length, bound, rfl, hbound.append happend, ?_, ?_⟩
    · exact (Module.map_fst_parameters hafter).trans hparameters
    · intro arguments hlength
      obtain ⟨results, x, hresults, _, hx, hworth⟩ := heval arguments hlength [] (hempty arguments)
      refine ⟨x, hx, ?_⟩
      have hcompute : b₁.module.compute b.module.functions.length arguments f.code [] =
          some results := by
        simpa only [Builder.results?, hpoint, hf, Option.bind_some] using hresults
      have hprefix : b₁.module.globals <+: m.globals := hglobals ▸ List.prefix_rfl
      have hexecute : m.execute b.module.functions.length arguments
          (f.append 0 none (.ret result)).code [] = some x := by
        rw [hopen.code_append, Module.execute_append (Module.compute_mono hprefix hcompute)]
        exact Module.operand_mono hprefix (fun _ _ h => h) hworth
      exact Option.bind_eq_some_iff.mpr ⟨_, hafter, hexecute⟩

/-- A chain of definitions that ends in a lambda becomes a function that computes its body. -/
theorem computes (h : Lowers b e value after) {parameters : List String} {body : Expr}
    (hlambda : e.lambda? = some (parameters, body)) (hm : b.module.Consistent)
    (hbefore : b.module.Binds before) :
    ∃ id bound, value = .function id ∧ after.module.Binds bound ∧
      after.module.Computes id parameters body before bound := by
  induction h with
  | number => cases hlambda
  | fold => cases hlambda
  | emit => cases hlambda
  | identifier => cases hlambda
  | lambda hdistinct hbody hresult hpoint happend =>
    cases hlambda
    exact (Lowers.lambda hdistinct hbody hresult hpoint happend).lambda_computes hm hbefore
  | named he _ hname ih =>
    obtain ⟨id, bound, rfl, hbound, hcomputes⟩ := ih hlambda hm hbefore
    refine ⟨id, bound, rfl, hbound.setName (he.consistent hm) hname, ?_⟩
    exact hcomputes.setName ⟨id, rfl⟩ hname
  | defined _ _ hadd ih =>
    obtain ⟨id, bound, rfl, _⟩ := ih hlambda hm hbefore
    cases Module.isNumeric_of_addGlobal hadd

/-- What is lowered for an expression of a program realizes it. -/
theorem realizes (h : Lowers b e.topLevel value after) (hpoint : b.point = none)
    (hm : b.module.Consistent) (hbefore : b.module.Binds before) :
    after.module.Binds (e.globals before) ∧ after.module.Realizes before e value := by
  unfold Module.Realizes
  cases hlambda : e.topLevel.lambda? with
  | some function =>
    obtain ⟨parameters, body⟩ := function
    obtain ⟨id, bound, rfl, hbound, hcomputes⟩ := h.computes hlambda hm hbefore
    rw [hcomputes.globals_eq hlambda]
    exact ⟨hbound, id, rfl, hcomputes⟩
  | none =>
    have hvalue : value.isNumeric = true := by rw [h.isNumeric_eq, hlambda]; rfl
    have hplaced : b.Placed 0 [] := .outside hpoint rfl
    have hresults : b.results? 0 [] = some [] := by rw [Builder.results?, hpoint]
    obtain ⟨bound, hbound, heval⟩ := h.evaluates hvalue hplaced .nil hm hbefore
    obtain ⟨results, x, _, _, hx, hworth⟩ := heval [] rfl [] hresults
    have hglobals : e.globals before = bound := by
      simp only [Expr.globals, hlambda]
      rw [show e.topLevel.evaluate [] before = some (x, bound) from hx]
      rfl
    have htop : e.topLevel = e := by
      unfold Expr.topLevel at hlambda ⊢
      split at hlambda
      · rw [if_pos ‹_›]
      · cases hlambda
    rw [htop] at h hx
    rw [hglobals]
    refine ⟨hbound, ?_⟩
    cases h with
    | @defined _ _ _ _ global m _ _ _ hadd =>
      obtain ⟨_, _, _, rfl, _⟩ := Module.addGlobal_eq_ok hadd
      exact ⟨_, x, rfl, hx, hworth⟩
    | named _ hfunction _ =>
      rw [Module.isNumeric_of_isFunction hfunction] at hvalue
      cases hvalue
    | lambda => cases hvalue
    | number => cases htop
    | fold => cases htop
    | emit => cases htop
    | identifier => cases htop

end Lowers

end LambdaArith
