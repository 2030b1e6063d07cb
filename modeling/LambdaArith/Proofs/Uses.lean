import LambdaArith.Proofs.OpenFunction
import LambdaArith.Proofs.Structure
import Mathlib.Data.List.Perm.Basic

/-!
# Uses of results

While a function is being filled, some values have been made for instructions that are still to
come. These values and the operands so far have among them each result in the function once. So
when the last of them is returned, each result has been used once, behind the instruction that it
is of.
-/

namespace LambdaArith

/-- The operands of an instruction in order. -/
def Action.operands : Action → List Value
  | compute _ lhs rhs => [lhs, rhs]
  | ret value => [value]

/-- Whether a value is the result of an instruction. -/
def Value.isResult : Value → Bool
  | result _ _ => true
  | _ => false

namespace Func

/-- All operands in a function in the order of its instructions. -/
def operands (f : Func) : List Value :=
  f.instructions.flatMap fun instruction => instruction.action.operands

/-- The indices of the instructions that have a value as an operand, each as often as it has. -/
def uses (f : Func) (value : Value) : List Nat :=
  f.instructions.zipIdx.flatMap fun (instruction, index) =>
    List.replicate (instruction.action.operands.count value) index

end Func

/-- A value that the instruction at `index` in the function `f` can have as an operand, where `f` is
at the place `id` in a module with so many globals: a constant, a parameter or an earlier result of
the same function, or a global. -/
def Value.Available (f : Func) (id globals index : Nat) : Value → Prop
  | constant _ => True
  | parameter owner place => owner = id ∧ place < f.parameters.length
  | result owner place => owner = id ∧ place < index ∧
      ∃ instruction, f.instructions[place]? = some instruction ∧
        instruction.action.isTerminator = false
  | global place => place < globals
  | function _ => False

/-- What is available stays so when more instructions and globals are there, also to later
instructions. -/
theorem Value.Available.mono {f g : Func} {id globals more index later : Nat} {value : Value}
    (h : value.Available f id globals index) (hparameters : g.parameters = f.parameters)
    (hinstructions : f.instructions <+: g.instructions) (hglobals : globals ≤ more)
    (hlater : index ≤ later) : value.Available g id more later := by
  cases value with
  | constant => trivial
  | parameter owner place => exact ⟨h.1, hparameters ▸ h.2⟩
  | result owner place =>
    obtain ⟨howner, hlt, instruction, hinstruction, hterminator⟩ := h
    have hplace := getElem?_of_prefix hinstructions hinstruction
    exact ⟨howner, by omega, instruction, hplace, hterminator⟩
  | global place => exact Nat.lt_of_lt_of_le h hglobals
  | function => exact h

namespace Func

variable {f : Func} {id globals more : Nat} {pending : List Value}

/-- Every operand of the function is available to its instruction. -/
def Scoped (f : Func) (id globals : Nat) : Prop :=
  ∀ (index : Nat) (instruction : Instruction), f.instructions[index]? = some instruction →
    ∀ value ∈ instruction.action.operands, value.Available f id globals index

/-- A function stays scoped when there are more globals. -/
theorem Scoped.mono (h : f.Scoped id globals) (hglobals : globals ≤ more) : f.Scoped id more := by
  intro index instruction hinstruction value hvalue
  have havailable := h index instruction hinstruction value hvalue
  exact havailable.mono rfl List.prefix_rfl hglobals (Nat.le_refl _)

/-- A function stays scoped when an instruction is added whose operands are available. -/
theorem Scoped.append (h : f.Scoped id globals) (wanted : Option String) {action : Action}
    (haction : ∀ value ∈ action.operands, value.Available f id globals f.instructions.length) :
    (f.append 0 wanted action).Scoped id globals := by
  obtain ⟨name, hinstructions, _⟩ := f.exists_name_append 0 wanted action
  have hprefix : f.instructions <+: (f.append 0 wanted action).instructions :=
    ⟨_, hinstructions.symm⟩
  intro index instruction hinstruction value hvalue
  rw [hinstructions] at hinstruction
  rcases getElem?_append_singleton_cases hinstruction with hold | ⟨rfl, rfl⟩
  · exact (h index instruction hold value hvalue).mono rfl hprefix (Nat.le_refl _) (Nat.le_refl _)
  · exact (haction value hvalue).mono rfl hprefix (Nat.le_refl _) (Nat.le_refl _)

/-- The operands of an added instruction come behind the others. -/
theorem operands_append (f : Func) (place : Nat) (wanted : Option String) (action : Action) :
    (f.append place wanted action).operands = f.operands ++ action.operands := by
  simp [operands, append]

/-- The function is being filled, and the values that are pending are still to be used. -/
structure Filling (f : Func) (id globals : Nat) (pending : List Value) : Prop extends f.Open where
  in_scope : f.Scoped id globals
  pending_available : ∀ value ∈ pending, value.Available f id globals f.instructions.length
  /-- Each result is used already or pending, and not twice. -/
  results_perm : ((f.operands ++ pending).filter Value.isResult).Perm
    ((List.range f.instructions.length).map (Value.result id))

/-- The function has been filled and returns. -/
structure Complete (f : Func) (id globals : Nat) : Prop extends f.Straight where
  in_scope : f.Scoped id globals
  returns : ∃ computations value, f.instructions = computations ++ [⟨none, .ret value⟩] ∧
    ∀ instruction ∈ computations, instruction.action.isTerminator = false
  /-- Each result but that of the last instruction is used once. -/
  results_perm : (f.operands.filter Value.isResult).Perm
    ((List.range (f.instructions.length - 1)).map (Value.result id))

/-- A new function with an empty block has nothing pending. -/
theorem filling_declare (names : List String) (id globals : Nat) :
    ((Func.declare names).appendBlock "entry").Filling id globals [] where
  toOpen := open_declare names
  in_scope := nofun
  pending_available := nofun
  results_perm := .nil

namespace Filling

/-- Other values can be pending that have the same results among them. -/
theorem replace (h : f.Filling id globals pending) {others : List Value}
    (havailable : ∀ value ∈ others, value.Available f id globals f.instructions.length)
    (hresults : others.filter Value.isResult = pending.filter Value.isResult) :
    f.Filling id globals others where
  toOpen := h.toOpen
  in_scope := h.in_scope
  pending_available := havailable
  results_perm := by
    have hperm := h.results_perm
    rw [List.filter_append] at hperm ⊢
    rwa [hresults]

/-- A function is still being filled when there are more globals. -/
theorem mono (h : f.Filling id globals pending) (hglobals : globals ≤ more) :
    f.Filling id more pending where
  toOpen := h.toOpen
  in_scope := h.in_scope.mono hglobals
  pending_available := fun value hvalue =>
    (h.pending_available value hvalue).mono rfl List.prefix_rfl hglobals (Nat.le_refl _)
  results_perm := h.results_perm

/-- A value that is no result can be pending in addition, if it is available. -/
theorem push (h : f.Filling id globals pending) {value : Value}
    (havailable : value.Available f id globals f.instructions.length)
    (hresult : value.isResult = false) : f.Filling id globals (pending ++ [value]) := by
  refine h.replace (fun other hother => ?_) ?_
  · rcases List.mem_append.mp hother with hold | hnew
    · exact h.pending_available other hold
    · rw [List.mem_singleton.mp hnew]
      exact havailable
  · simp [hresult]

/-- The last value that is pending can be forgotten if it is no result. -/
theorem pop {value : Value} (h : f.Filling id globals (pending ++ [value]))
    (hresult : value.isResult = false) : f.Filling id globals pending := by
  refine h.replace (fun other hother => ?_) ?_
  · exact h.pending_available other (List.mem_append_left _ hother)
  · simp [hresult]

/-- An instruction whose operands are the last that are pending uses them. -/
theorem results_perm_append {action : Action}
    (h : f.Filling id globals (pending ++ action.operands)) (wanted : Option String) :
    (((f.append 0 wanted action).operands ++ pending).filter Value.isResult).Perm
      ((List.range f.instructions.length).map (Value.result id)) := by
  have hswap : (f.operands ++ (action.operands ++ pending)).Perm
      (f.operands ++ (pending ++ action.operands)) :=
    List.perm_append_comm.append_left f.operands
  rw [operands_append, List.append_assoc]
  exact (hswap.filter Value.isResult).trans h.results_perm

/-- A computation uses its operands, and its result is pending then. -/
theorem compute {op : Operator} {lhs rhs : Value}
    (h : f.Filling id globals (pending ++ [lhs, rhs])) (wanted : Option String) :
    (f.append 0 wanted (.compute op lhs rhs)).Filling id globals
      (pending ++ [.result id f.instructions.length]) := by
  have hpending : ∀ value ∈ [lhs, rhs], value.Available f id globals f.instructions.length :=
    fun value hvalue => h.pending_available value (List.mem_append_right _ hvalue)
  have hlength : (f.append 0 wanted (.compute op lhs rhs)).instructions.length =
      f.instructions.length + 1 := List.length_append
  have hprefix : f.instructions <+: (f.append 0 wanted (.compute op lhs rhs)).instructions :=
    List.prefix_append f.instructions _
  refine ⟨h.toOpen.append wanted rfl, h.in_scope.append wanted hpending, ?_, ?_⟩
  · intro value hvalue
    rw [hlength]
    rcases List.mem_append.mp hvalue with hold | hnew
    · have havailable := h.pending_available value (List.mem_append_left _ hold)
      exact havailable.mono rfl hprefix (Nat.le_refl _) (Nat.le_succ _)
    · rw [List.mem_singleton.mp hnew]
      refine ⟨rfl, Nat.lt_succ_self _, _, List.getElem?_concat_length, rfl⟩
  · rw [hlength, List.range_succ, List.map_append, ← List.append_assoc, List.filter_append]
    exact (results_perm_append h wanted).append (.refl _)

/-- Returning the only value that is pending completes the function. -/
theorem ret {value : Value} (h : f.Filling id globals [value]) :
    (f.append 0 none (.ret value)).Complete id globals := by
  have huses : f.Filling id globals ([] ++ (Action.ret value).operands) := h
  have hperm := huses.results_perm_append none
  have hlength : (f.append 0 none (.ret value)).instructions.length =
      f.instructions.length + 1 := List.length_append
  refine ⟨h.toStraight.append none _, h.in_scope.append none h.pending_available, ?_, ?_⟩
  · exact ⟨f.instructions, value, rfl, h.not_terminator⟩
  · rw [List.append_nil] at hperm
    rwa [hlength, Nat.add_sub_cancel]

end Filling

namespace Complete

/-- A function stays complete when there are more globals. -/
theorem mono (h : f.Complete id globals) (hglobals : globals ≤ more) : f.Complete id more :=
  ⟨h.toStraight, h.in_scope.mono hglobals, h.returns, h.results_perm⟩

/-- A function stays complete when it gets another name. -/
theorem named (h : f.Complete id globals) (name : Option String) :
    Complete { f with name := name } id globals :=
  ⟨⟨h.blocks_eq⟩, h.in_scope, h.returns, h.results_perm⟩

/-- Only the last instruction of a complete function returns. -/
theorem succ_lt (h : f.Complete id globals) {index : Nat} {instruction : Instruction}
    (hinstruction : f.instructions[index]? = some instruction)
    (haction : instruction.action.isTerminator = false) : index + 1 < f.instructions.length := by
  obtain ⟨computations, value, hinstructions, _⟩ := h.returns
  have hlt := (List.getElem?_eq_some_iff.mp hinstruction).1
  have hne : index ≠ computations.length := by
    rintro rfl
    rw [hinstructions, List.getElem?_concat_length, Option.some.injEq] at hinstruction
    subst hinstruction
    cases haction
  rw [hinstructions, List.length_append, List.length_singleton] at hlt ⊢
  omega

end Complete

/-- A value is used as often as it is an operand. -/
theorem length_uses (f : Func) (value : Value) :
    (f.uses value).length = f.operands.count value := by
  have hmap : f.instructions.zipIdx.map (fun entry => entry.1.action.operands.count value) =
      (f.instructions.zipIdx.map Prod.fst).map fun instruction =>
        instruction.action.operands.count value := by
    rw [List.map_map]
    rfl
  rw [List.zipIdx_map_fst] at hmap
  simp only [uses, operands, List.length_flatMap, List.count_flatMap, List.length_replicate]
  exact congrArg List.sum hmap

/-- A value is used by the instructions that have it as an operand. -/
theorem mem_uses_iff {value : Value} {index : Nat} :
    index ∈ f.uses value ↔ ∃ instruction, f.instructions[index]? = some instruction ∧
      value ∈ instruction.action.operands := by
  constructor
  · intro h
    obtain ⟨⟨instruction, place⟩, hentry, hplace⟩ := List.mem_flatMap.mp h
    obtain ⟨hcount, rfl⟩ := List.mem_replicate.mp hplace
    have hvalue := List.count_pos_iff.mp (Nat.pos_of_ne_zero hcount)
    exact ⟨instruction, List.mem_zipIdx_iff_getElem?.mp hentry, hvalue⟩
  · rintro ⟨instruction, hinstruction, hvalue⟩
    have hcount := Nat.ne_of_gt (List.count_pos_iff.mpr hvalue)
    exact List.mem_flatMap.mpr ⟨(instruction, index), List.mem_zipIdx_iff_getElem?.mpr hinstruction,
      List.mem_replicate.mpr ⟨hcount, rfl⟩⟩

/-- Results of other functions are not used. -/
theorem Scoped.uses_eq_nil (h : f.Scoped id globals) {owner : Nat} (hne : owner ≠ id)
    (place : Nat) : f.uses (.result owner place) = [] := by
  refine List.eq_nil_iff_forall_not_mem.mpr fun index hindex => ?_
  obtain ⟨instruction, hinstruction, hvalue⟩ := mem_uses_iff.mp hindex
  exact hne (h index instruction hinstruction _ hvalue).1

/-- Each result of a complete function is used once, by an instruction behind it. -/
theorem Complete.exists_uses_eq (h : f.Complete id globals) {index : Nat}
    (hindex : index + 1 < f.instructions.length) :
    ∃ later, index < later ∧ f.uses (.result id index) = [later] := by
  have hcount : f.operands.count (.result id index) = 1 := by
    have hfilter : (f.operands.filter Value.isResult).count (.result id index) =
        f.operands.count (.result id index) := List.count_filter rfl
    have hmem : Value.result id index ∈
        (List.range (f.instructions.length - 1)).map (Value.result id) :=
      List.mem_map_of_mem (List.mem_range.mpr (by omega))
    have hnodup : ((List.range (f.instructions.length - 1)).map (Value.result id)).Nodup :=
      List.nodup_range.map fun _ _ heq => (Value.result.inj heq).2
    rw [← hfilter, h.results_perm.count_eq, List.count_eq_one_of_mem hnodup hmem]
  obtain ⟨later, hlater⟩ := List.length_eq_one_iff.mp ((f.length_uses _).trans hcount)
  have hmem : later ∈ f.uses (.result id index) := hlater ▸ List.mem_singleton_self later
  obtain ⟨instruction, hinstruction, hvalue⟩ := mem_uses_iff.mp hmem
  obtain ⟨_, hlt, _⟩ := h.in_scope later instruction hinstruction _ hvalue
  exact ⟨later, hlt, hlater⟩

end Func

end LambdaArith
