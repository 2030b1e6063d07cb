import LambdaArith.Module.Edit
import Mathlib.Data.List.Basic
import Mathlib.Data.List.Induction

/-!
# Executing a function

A function is executed by going through its instructions in the order of its blocks and keeping
what each of them results in, up to the first that returns. Execution only asks for the
initializers of globals, so it stays what it is while the module grows.
-/

namespace LambdaArith

/-- What instructions have resulted in, by their places. -/
abbrev Results := List (Nat × Float)

/-- What a function does, in the order of its blocks: its instructions with their places. -/
def Func.code (f : Func) : List (Nat × Action) :=
  f.blocks.flatMap fun block => block.instructions.filterMap fun index =>
    (f.instructions[index]?).map fun instruction => (index, instruction.action)

namespace Module

/-- What an operand is worth in a function that is executed with these arguments. Parameters and
results of other functions are worth nothing there. -/
def operand (m : Module) (function : Nat) (arguments : List Float) (results : Results) :
    Value → Option Float
  | .constant x => some x
  | .parameter owner index => if owner = function then arguments[index]? else none
  | .result owner index => if owner = function then results.lookup index else none
  | .global id => m.initializer? id
  | .function _ => none

/-- Executes instructions up to the first that returns. -/
def execute (m : Module) (function : Nat) (arguments : List Float) :
    List (Nat × Action) → Results → Option Float
  | [], _ => none
  | (index, .compute op lhs rhs) :: rest, results => do
    let x ← m.operand function arguments results lhs
    let y ← m.operand function arguments results rhs
    m.execute function arguments rest ((index, op.apply x y) :: results)
  | (_, .ret value) :: _, results => m.operand function arguments results value

/-- What a function returns for these arguments. -/
def call (m : Module) (function : Nat) (arguments : List Float) : Option Float :=
  (m.functions[function]?).bind fun f => m.execute function arguments f.code []

/-- What instructions result in, none of which returns. -/
def compute (m : Module) (function : Nat) (arguments : List Float) :
    List (Nat × Action) → Results → Option Results
  | [], results => some results
  | (index, .compute op lhs rhs) :: rest, results => do
    let x ← m.operand function arguments results lhs
    let y ← m.operand function arguments results rhs
    m.compute function arguments rest ((index, op.apply x y) :: results)
  | (_, .ret _) :: _, _ => none

end Module

/-- The code of a function goes through the instructions in the order of its blocks. -/
theorem Func.map_code (f : Func) :
    f.code.map Prod.snd = f.orderedInstructions.map Instruction.action := by
  simp only [code, orderedInstructions, blockInstructions, List.map_flatMap, List.map_filterMap,
    Option.map_map]
  rfl

/-- What is at a place of a list is there in every longer list that starts with it. -/
theorem getElem?_of_prefix {α : Type} {xs ys : List α} (h : xs <+: ys) {i : Nat} {x : α}
    (hx : xs[i]? = some x) : ys[i]? = some x := by
  obtain ⟨rest, rfl⟩ := h
  rw [List.getElem?_append_left (List.getElem?_eq_some_iff.mp hx).1, hx]

/-- Reading a list at each of its indices in order gives the list. -/
theorem filterMap_range_getElem? {α : Type} (xs : List α) :
    ((List.range xs.length).filterMap fun index => xs[index]?) = xs := by
  induction xs using List.reverseRecOn with
  | nil => rfl
  | append_singleton xs last ih =>
    rw [List.length_append, List.length_singleton, List.range_succ, List.filterMap_append]
    congr 1
    · refine Eq.trans (List.filterMap_congr fun index hindex => ?_) ih
      rw [List.getElem?_append_left (List.mem_range.mp hindex)]
    · simp

namespace Module

variable {m after : Module} {function : Nat} {arguments : List Float}

/-- An operand is worth the same when there are more globals and more results. -/
theorem operand_mono (hglobals : m.globals <+: after.globals) {results more : Results}
    (hresults : ∀ index x, results.lookup index = some x → more.lookup index = some x)
    {value : Value} {x : Float} (h : m.operand function arguments results value = some x) :
    after.operand function arguments more value = some x := by
  cases value with
  | constant y => exact h
  | parameter owner index => exact h
  | function id => exact h
  | result owner index =>
    simp only [operand] at h ⊢
    split at h
    · rw [if_pos ‹_›]
      exact hresults index x h
    · cases h
  | global id =>
    obtain ⟨g, hg, hx⟩ := Option.map_eq_some_iff.mp h
    exact Option.map_eq_some_iff.mpr ⟨g, getElem?_of_prefix hglobals hg, hx⟩

/-- Instructions return the same when there are more globals. -/
theorem execute_mono (hglobals : m.globals <+: after.globals) {code : List (Nat × Action)}
    {results : Results} {x : Float} (h : m.execute function arguments code results = some x) :
    after.execute function arguments code results = some x := by
  induction code generalizing results with
  | nil => cases h
  | cons first rest ih =>
    obtain ⟨index, action⟩ := first
    cases action with
    | ret value => exact operand_mono hglobals (fun _ _ hx => hx) h
    | compute op lhs rhs =>
      obtain ⟨y, hy, h⟩ := Option.bind_eq_some_iff.mp h
      obtain ⟨z, hz, h⟩ := Option.bind_eq_some_iff.mp h
      refine Option.bind_eq_some_iff.mpr ⟨y, operand_mono hglobals (fun _ _ hx => hx) hy, ?_⟩
      exact Option.bind_eq_some_iff.mpr ⟨z, operand_mono hglobals (fun _ _ hx => hx) hz, ih h⟩

/-- Instructions result in the same when there are more globals. -/
theorem compute_mono (hglobals : m.globals <+: after.globals) {code : List (Nat × Action)}
    {results computed : Results}
    (h : m.compute function arguments code results = some computed) :
    after.compute function arguments code results = some computed := by
  induction code generalizing results with
  | nil => exact h
  | cons first rest ih =>
    obtain ⟨index, action⟩ := first
    cases action with
    | ret value => cases h
    | compute op lhs rhs =>
      obtain ⟨y, hy, h⟩ := Option.bind_eq_some_iff.mp h
      obtain ⟨z, hz, h⟩ := Option.bind_eq_some_iff.mp h
      refine Option.bind_eq_some_iff.mpr ⟨y, operand_mono hglobals (fun _ _ hx => hx) hy, ?_⟩
      exact Option.bind_eq_some_iff.mpr ⟨z, operand_mono hglobals (fun _ _ hx => hx) hz, ih h⟩

/-- Instructions after others start with what those have resulted in. -/
theorem compute_append {code rest : List (Nat × Action)} {results computed : Results}
    (h : m.compute function arguments code results = some computed) :
    m.compute function arguments (code ++ rest) results =
      m.compute function arguments rest computed := by
  induction code generalizing results with
  | nil =>
    cases h
    rfl
  | cons first code ih =>
    obtain ⟨index, action⟩ := first
    cases action with
    | ret value => cases h
    | compute op lhs rhs =>
      obtain ⟨y, hy, h⟩ := Option.bind_eq_some_iff.mp h
      obtain ⟨z, hz, h⟩ := Option.bind_eq_some_iff.mp h
      rw [← ih h]
      simp only [List.cons_append, compute, hy, hz, Option.bind_eq_bind, Option.bind_some]

/-- What is executed after instructions that do not return starts with what those have resulted
in. -/
theorem execute_append {code rest : List (Nat × Action)} {results computed : Results}
    (h : m.compute function arguments code results = some computed) :
    m.execute function arguments (code ++ rest) results =
      m.execute function arguments rest computed := by
  induction code generalizing results with
  | nil =>
    cases h
    rfl
  | cons first code ih =>
    obtain ⟨index, action⟩ := first
    cases action with
    | ret value => cases h
    | compute op lhs rhs =>
      obtain ⟨y, hy, h⟩ := Option.bind_eq_some_iff.mp h
      obtain ⟨z, hz, h⟩ := Option.bind_eq_some_iff.mp h
      rw [← ih h]
      simp only [List.cons_append, execute, hy, hz, Option.bind_eq_bind, Option.bind_some]

/-- Every result is that of one of the instructions, or has been there before. -/
theorem mem_of_compute {code : List (Nat × Action)} {results computed : Results}
    (h : m.compute function arguments code results = some computed) {index : Nat} {x : Float}
    (hx : computed.lookup index = some x) :
    index ∈ code.map Prod.fst ∨ results.lookup index = some x := by
  induction code generalizing results with
  | nil =>
    cases h
    exact .inr hx
  | cons first code ih =>
    obtain ⟨place, action⟩ := first
    cases action with
    | ret value => cases h
    | compute op lhs rhs =>
      obtain ⟨y, _, h⟩ := Option.bind_eq_some_iff.mp h
      obtain ⟨z, _, h⟩ := Option.bind_eq_some_iff.mp h
      rw [List.map_cons, List.mem_cons]
      rcases ih h with hmem | hlookup
      · exact .inl (.inr hmem)
      · by_cases heq : index = place
        · exact .inl (.inl heq)
        · rw [List.lookup_cons, beq_false_of_ne heq] at hlookup
          exact .inr hlookup

/-- A call has the same result when there are more globals and the function does the same. -/
theorem call_mono (hglobals : m.globals <+: after.globals)
    (hcode : ∀ f, m.functions[function]? = some f →
      ∃ g, after.functions[function]? = some g ∧ g.code = f.code) {x : Float}
    (h : m.call function arguments = some x) : after.call function arguments = some x := by
  obtain ⟨f, hf, hx⟩ := Option.bind_eq_some_iff.mp h
  obtain ⟨g, hg, hsame⟩ := hcode f hf
  refine Option.bind_eq_some_iff.mpr ⟨g, hg, ?_⟩
  rw [hsame]
  exact execute_mono hglobals hx

end Module

/-- A function of one block whose instructions are all in it, in the order in which they have
been added. -/
structure Func.Straight (f : Func) : Prop where
  blocks_eq : f.blocks = [⟨"entry", List.range f.instructions.length⟩]

namespace Func.Straight

variable {f : Func}

/-- An instruction comes to the end of the block. -/
theorem append (h : f.Straight) (wanted : Option String) (action : Action) :
    (f.append 0 wanted action).Straight where
  blocks_eq := by
    simp only [Func.append, h.blocks_eq, List.length_append, List.length_singleton]
    simp [List.range_succ]

/-- The block of a straight function has all its instructions in order. -/
theorem orderedInstructions_eq (h : f.Straight) :
    f.orderedInstructions = f.instructions := by
  rw [Func.orderedInstructions, h.blocks_eq, List.flatMap_singleton]
  exact filterMap_range_getElem? f.instructions

/-- The code of such a function goes through its instructions in the order of their places. -/
theorem code_eq (h : f.Straight) :
    f.code = (List.range f.instructions.length).filterMap fun index =>
      (f.instructions[index]?).map fun instruction => (index, instruction.action) := by
  rw [Func.code, h.blocks_eq, List.flatMap_singleton]

/-- An instruction comes to the end of the code. -/
theorem code_append (h : f.Straight) (wanted : Option String) (action : Action) :
    (f.append 0 wanted action).code = f.code ++ [(f.instructions.length, action)] := by
  rw [(h.append wanted action).code_eq, h.code_eq]
  simp only [Func.append, List.length_append, List.length_singleton, List.range_succ,
    List.filterMap_append]
  congr 1
  · refine List.filterMap_congr fun index hindex => ?_
    rw [List.getElem?_append_left (List.mem_range.mp hindex)]
  · simp

/-- The code has places where there are instructions. -/
theorem lt_of_mem_code (h : f.Straight) {index : Nat} (hindex : index ∈ f.code.map Prod.fst) :
    index < f.instructions.length := by
  rw [h.code_eq] at hindex
  obtain ⟨⟨place, action⟩, hmem, rfl⟩ := List.mem_map.mp hindex
  obtain ⟨place', hplace, hsome⟩ := List.mem_filterMap.mp hmem
  obtain ⟨_, _, heq⟩ := Option.map_eq_some_iff.mp hsome
  cases heq
  exact List.mem_range.mp hplace

end Func.Straight

end LambdaArith
