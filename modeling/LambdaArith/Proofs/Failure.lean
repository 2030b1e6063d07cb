import LambdaArith.Proofs.Calls
import LambdaArith.Proofs.Operation

/-!
# Failed input is invisible

After a call that fails, the module is alike to what it has been before. So nothing that can be
asked tells afterwards that there has been a failure, and no later answer depends on it.
-/

namespace LambdaArith

namespace Module

/-- Those calls that succeed when all are made in order. -/
def succeeding (m : Module) : List Call → List Call
  | [] => []
  | call :: rest =>
    let later := (m.answer call).2.succeeding rest
    if (m.answer call).1.isOk then call :: later else later

/-- Nothing that can be asked of a module tells the two apart. -/
structure Indistinguishable (m n : Module) : Prop where
  name_eq : m.name = n.name
  target_eq : m.target = n.target
  text_eq : m.text = n.text
  global?_eq : ∀ name, m.global? name = n.global? name
  function?_eq : ∀ name, m.function? name = n.function? name
  /-- The globals in order, with their names and initializers. -/
  globals_eq : m.globals = n.globals
  initializer?_eq : ∀ id, m.initializer? id = n.initializer? id
  /-- The functions are known by their places, so their number is all that is told of them. -/
  functions_length_eq : m.functions.length = n.functions.length
  parameters_eq : ∀ function, m.parameters function = n.parameters function
  instructions_eq : ∀ function, m.instructions function = n.instructions function
  isFunction_eq : ∀ value, m.isFunction value = n.isFunction value
  valueName?_eq : ∀ value, m.valueName? value = n.valueName? value
  operandText_eq : ∀ value, m.operandText value = n.operandText value
  resolve_eq : ∀ function name, m.resolve function name = n.resolve function name
  checkpoint_eq : m.checkpoint = n.checkpoint

/-- Alike modules cannot be told apart. -/
theorem Alike.indistinguishable {m n : Module} (h : m.Alike n) : m.Indistinguishable n where
  name_eq := h.name_eq
  target_eq := h.target_eq
  text_eq := h.text_eq
  global?_eq := h.global?_eq
  function?_eq := h.function?_eq
  globals_eq := h.globals_eq
  initializer?_eq := h.initializer?_eq
  functions_length_eq := congrArg List.length h.functions_eq
  parameters_eq := h.parameters_eq
  instructions_eq := h.instructions_eq
  isFunction_eq := h.isFunction_eq
  valueName?_eq := h.valueName?_eq
  operandText_eq := h.operandText_eq
  resolve_eq := h.resolve_eq
  checkpoint_eq := h.checkpoint_eq

/-- Without the calls that fail, the others are answered as before, and the module is alike. -/
theorem Consistent.answers_succeeding {m : Module} (hm : m.Consistent) (calls : List Call) :
    (m.answers (m.succeeding calls)).1 = (m.answers calls).1.filter Except.isOk ∧
      (m.answers (m.succeeding calls)).2.Alike (m.answers calls).2 := by
  induction calls generalizing m with
  | nil => exact ⟨rfl, .refl m⟩
  | cons call rest ih =>
    rcases hm.answer call with ⟨values, hok, _, hafter⟩ | ⟨error, herror, hlike, hafter⟩
    · obtain ⟨hresults, hlast⟩ := ih hafter
      have hisOk : (m.answer call).1.isOk = true := by rw [hok]; rfl
      simp only [Module.succeeding, Module.answers, hisOk, if_true, List.filter_cons_of_pos,
        hresults, true_and]
      exact hlast
    · obtain ⟨hresults, hlast⟩ := ih hafter
      obtain ⟨hsame, hsame'⟩ := hlike.answers ((m.answer call).2.succeeding rest)
      have hisOk : ¬ (m.answer call).1.isOk = true := by rw [herror]; exact Bool.false_ne_true
      have hrest : m.succeeding (call :: rest) = (m.answer call).2.succeeding rest :=
        if_neg hisOk
      rw [hrest, ← hsame]
      simp only [Module.answers, List.filter_cons_of_neg hisOk]
      exact ⟨hresults, hsame'.symm.trans hlast⟩

/-- A call that fails leaves everything that can be asked of the module as it was, and leaving
out all calls that fail changes neither the other answers nor what can be asked at the end. -/
theorem failures_leave_no_trace {m : Module} (hm : m.Reachable) :
    (∀ (earlier : List Call) (call : Call) (error : Error),
      ((m.answers earlier).2.answer call).1 = .error error →
        ((m.answers earlier).2.answer call).2.Indistinguishable (m.answers earlier).2) ∧
      ∀ calls : List Call,
        (m.answers (m.succeeding calls)).1 = (m.answers calls).1.filter Except.isOk ∧
          (m.answers (m.succeeding calls)).2.Indistinguishable (m.answers calls).2 := by
  constructor
  · intro earlier call error herror
    rcases (hm.consistent.answers earlier).answer call with ⟨_, hok, _⟩ | ⟨_, _, hlike, _⟩
    · rw [hok] at herror
      cases herror
    · exact hlike.indistinguishable
  · intro calls
    obtain ⟨hresults, hlike⟩ := hm.consistent.answers_succeeding calls
    exact ⟨hresults, hlike.indistinguishable⟩

/-- The global that has been defined before an unknown name is met is gone again. -/
theorem failures_leave_no_trace_unknown_name :
    ((empty "m").answer (.lowerAll [.define "y" (.number 2), .identifier "z"])).1 =
        .error (.lowering (.unresolvedIdentifier "z")) ∧
      Indistinguishable
        ((empty "m").answer (.lowerAll [.define "y" (.number 2), .identifier "z"])).2
        (empty "m") := by
  have hfails : ((empty "m").answer (.lowerAll [.define "y" (.number 2), .identifier "z"])).1 =
      .error (.lowering (.unresolvedIdentifier "z")) := by
    rfl
  have hreachable : (empty "m").Reachable := ⟨"m", [], rfl⟩
  exact ⟨hfails, (failures_leave_no_trace hreachable).1 [] _ _ hfails⟩

end Module

end LambdaArith
