import LambdaArith.Proofs.OpenFunction
import LambdaArith.Proofs.Scope
import LambdaArith.Proofs.Steps

/-!
# Modules that differ in the names inside a function

The names of parameters and of results are there to be read. Two modules that differ in no others
than those of one function refuse the same operations, and stay so when both are changed in the same
way.
-/

namespace LambdaArith

variable {parameters names : List String}

/-- Two functions with these names for their parameters are the same but for the names in them. -/
structure Func.SameCode (parameters names : List String) (f g : Func) : Prop where
  left_parameters : f.parameters = parameters
  right_parameters : g.parameters = names
  name_eq : f.name = g.name
  blocks_eq : f.blocks = g.blocks
  actions_eq : f.actions = g.actions

namespace Func.SameCode

variable {f g : Func}

/-- As many instructions have been added to the one function as to the other. -/
theorem length_eq (h : SameCode parameters names f g) :
    f.instructions.length = g.instructions.length := by
  simpa [Func.actions] using congrArg List.length h.actions_eq

/-- The same blocks are terminated. -/
theorem isTerminated_eq (h : SameCode parameters names f g) (block : Block) :
    f.isTerminated block = g.isTerminated block := by
  have haction : ∀ (e : Func) (index : Nat),
      (e.instructions[index]?).any (fun instruction => instruction.action.isTerminator) =
        (e.actions[index]?).any Action.isTerminator := by
    intro e index
    rw [Func.actions, List.getElem?_map, Option.any_map]
  simp only [Func.isTerminated, haction, h.actions_eq]

/-- Functions without instructions. -/
theorem declare (hleft : parameters.Nodup) (hright : names.Nodup) (label : String) :
    SameCode parameters names ((Func.declare parameters).appendBlock label)
      ((Func.declare names).appendBlock label) :=
  ⟨Func.parameters_declare hleft, Func.parameters_declare hright, rfl, rfl, rfl⟩

/-- Adding the same instruction, which may get another name in the one function than in the
other. -/
theorem append (h : SameCode parameters names f g) (block : Nat) (wanted : Option String)
    (action : Action) :
    SameCode parameters names (f.append block wanted action) (g.append block wanted action) := by
  refine ⟨h.left_parameters, h.right_parameters, h.name_eq, ?_, ?_⟩
  · simp only [Func.append, h.blocks_eq, h.length_eq]
  · rw [Func.actions_append, Func.actions_append, h.actions_eq]

/-- Giving both functions a name. -/
theorem named (h : SameCode parameters names f g) (name : Option String) :
    SameCode parameters names { f with name := name } { g with name := name } :=
  ⟨h.left_parameters, h.right_parameters, rfl, h.blocks_eq, h.actions_eq⟩

end Func.SameCode

namespace Module

/-- Two modules are the same but for the names inside the function `k`, whose parameters are known
by these names. -/
structure SameBut (k : Nat) (parameters names : List String) (m n : Module) : Prop where
  name_eq : m.name = n.name
  target_eq : m.target = n.target
  symbols_eq : m.symbols = n.symbols
  globals_eq : m.globals = n.globals
  length_eq : m.functions.length = n.functions.length
  others : ∀ id, id ≠ k → m.functions[id]? = n.functions[id]?
  same : ∃ f g, m.functions[k]? = some f ∧ n.functions[k]? = some g ∧
    Func.SameCode parameters names f g

namespace SameBut

variable {m n : Module} {k : Nat}

/-- The function with other names exists. -/
theorem lt_length (h : SameBut k parameters names m n) : k < m.functions.length := by
  obtain ⟨f, _, hf, _⟩ := h.same
  exact (List.getElem?_eq_some_iff.mp hf).1

/-- The functions do the same. -/
theorem actions_eq (h : SameBut k parameters names m n) (id : Nat) :
    (m.functions[id]?).map Func.actions = (n.functions[id]?).map Func.actions := by
  by_cases hid : id = k
  · obtain ⟨f, g, hf, hg, hsame⟩ := h.same
    rw [hid, hf, hg, Option.map_some, Option.map_some, hsame.actions_eq]
  · rw [h.others id hid]

/-- The same functions have the same names. -/
theorem functionName_eq (h : SameBut k parameters names m n) (id : Nat) :
    (m.functions[id]?).bind Func.name = (n.functions[id]?).bind Func.name := by
  by_cases hid : id = k
  · obtain ⟨f, g, hf, hg, hsame⟩ := h.same
    rw [hid, hf, hg]
    exact hsame.name_eq
  · rw [h.others id hid]

/-- The same name stands for the same. -/
theorem lookup?_eq (h : SameBut k parameters names m n) (name : String) :
    m.lookup? name = n.lookup? name := by
  rw [lookup?, lookup?, h.symbols_eq]

/-- The same values are functions. -/
theorem isFunction_eq (h : SameBut k parameters names m n) (value : Value) :
    m.isFunction value = n.isFunction value := by
  cases value <;> simp only [isFunction, h.length_eq]

/-- The same function with the same changes on both sides, if it is another one. -/
theorem set_other (h : SameBut k parameters names m n) {id : Nat} (hid : id ≠ k) (f : Func) :
    SameBut k parameters names { m with functions := m.functions.set id f }
      { n with functions := n.functions.set id f } := by
  obtain ⟨e, g, he, hg, hsame⟩ := h.same
  refine ⟨h.name_eq, h.target_eq, h.symbols_eq, h.globals_eq, ?_, ?_, e, g, ?_, ?_, hsame⟩
  · rw [List.length_set, List.length_set, h.length_eq]
  · intro other hother
    simp only [List.getElem?_set, h.length_eq, h.others other hother]
  · rwa [List.getElem?_set_ne hid]
  · rwa [List.getElem?_set_ne hid]

/-- The function with other names, changed so that it is still the same. -/
theorem set_same (h : SameBut k parameters names m n) {f g : Func}
    (hsame : Func.SameCode parameters names f g) :
    SameBut k parameters names { m with functions := m.functions.set k f }
      { n with functions := n.functions.set k g } := by
  have hm := h.lt_length
  refine ⟨h.name_eq, h.target_eq, h.symbols_eq, h.globals_eq, ?_, ?_, f, g, ?_, ?_, hsame⟩
  · rw [List.length_set, List.length_set, h.length_eq]
  · intro other hother
    rw [List.getElem?_set_ne hother.symm, List.getElem?_set_ne hother.symm, h.others other hother]
  · exact List.getElem?_set_self hm
  · exact List.getElem?_set_self (h.length_eq ▸ hm)

/-- A function with a name of its own on both sides. -/
theorem modify_name (h : SameBut k parameters names m n) (symbols : SymbolTable) (id : Nat)
    (name : Option String) :
    SameBut k parameters names
      { m with
        symbols := symbols
        functions := m.functions.modify id fun f => { f with name := name } }
      { n with
        symbols := symbols
        functions := n.functions.modify id fun f => { f with name := name } } := by
  obtain ⟨f, g, hf, hg, hsame⟩ := h.same
  refine ⟨h.name_eq, h.target_eq, rfl, h.globals_eq, ?_, ?_, ?_⟩
  · rw [List.length_modify, List.length_modify, h.length_eq]
  · intro other hother
    rw [List.getElem?_modify, List.getElem?_modify, h.others other hother]
  · simp only [List.getElem?_modify, hf, hg]
    refine ⟨_, _, rfl, rfl, ?_⟩
    split
    · exact hsame.named name
    · exact hsame

/-- A function that is new in both modules. -/
theorem openFunction (h : SameBut k parameters names m n) (locals : List String) :
    SameBut k parameters names (m.openFunction locals) (n.openFunction locals) := by
  obtain ⟨f, g, hf, hg, hsame⟩ := h.same
  refine ⟨h.name_eq, h.target_eq, h.symbols_eq, h.globals_eq, ?_, ?_, f, g, ?_, ?_, hsame⟩
  · simp only [Module.openFunction, List.length_append, h.length_eq]
  · intro id hid
    simp only [Module.openFunction, List.getElem?_append, h.length_eq, h.others id hid]
  · exact (List.getElem?_append_left h.lt_length).trans hf
  · exact (List.getElem?_append_left (h.length_eq ▸ h.lt_length)).trans hg

/-- The function with other names, when it is new itself. -/
theorem of_openFunction (m : Module) (hleft : parameters.Nodup) (hright : names.Nodup) :
    SameBut m.functions.length parameters names (m.openFunction parameters)
      (m.openFunction names) := by
  refine ⟨rfl, rfl, rfl, rfl, ?_, ?_, _, _, ?_, ?_, Func.SameCode.declare hleft hright "entry"⟩
  · simp only [Module.openFunction, List.length_append, List.length_singleton]
  · intro id hid
    rcases Nat.lt_or_gt_of_ne hid with hlt | hgt
    · simp only [Module.openFunction, List.getElem?_append_left hlt]
    · simp only [Module.openFunction]
      rw [List.getElem?_eq_none, List.getElem?_eq_none] <;>
        (rw [List.length_append, List.length_singleton]; omega)
  · exact List.getElem?_concat_length
  · exact List.getElem?_concat_length

end SameBut

/-- Two answers of an operation on such modules: the same refusal, or the same value and such
modules again. -/
def SameButAnswers {α : Type} (k : Nat) (parameters names : List String) :
    Except BackendError (α × Module) → Except BackendError (α × Module) → Prop
  | .ok (a, m), .ok (b, n) => a = b ∧ SameBut k parameters names m n
  | .error e, .error f => e = f
  | _, _ => False

namespace SameBut

variable {m n : Module} {k : Nat}

/-- Adding a global. -/
theorem addGlobal (h : SameBut k parameters names m n) (name : String) (initializer : Value) :
    SameButAnswers k parameters names (m.addGlobal name initializer)
      (n.addGlobal name initializer) := by
  have hinitial : m.initialValue name initializer = n.initialValue name initializer := by
    cases initializer <;> simp only [initialValue, initializer?, h.globals_eq]
  unfold Module.addGlobal
  rw [hinitial, h.lookup?_eq, h.globals_eq, h.symbols_eq]
  split
  · rfl
  · split
    · rfl
    · exact ⟨rfl, h.name_eq, h.target_eq, rfl, rfl, h.length_eq, h.others, h.same⟩

/-- Adding an instruction. -/
theorem append (h : SameBut k parameters names m n) (point : InsertPoint) (wanted : Option String)
    (action : Action) :
    SameButAnswers k parameters names (m.append point wanted action)
      (n.append point wanted action) := by
  unfold Module.append
  by_cases hid : point.function = k
  · obtain ⟨f, g, hf, hg, hsame⟩ := h.same
    simp only [hid, hf, hg, hsame.blocks_eq, hsame.isTerminated_eq, hsame.length_eq]
    split
    · rfl
    · split
      · rfl
      · exact ⟨rfl, h.set_same (hsame.append point.block wanted action)⟩
  · rw [h.others _ hid]
    split
    · rfl
    · split
      · rfl
      · split
        · rfl
        · exact ⟨rfl, h.set_other hid _⟩

/-- Renaming a symbol. -/
theorem rename (h : SameBut k parameters names m n) (symbol : Symbol) (name : String) :
    SameBut k parameters names (m.rename symbol name) (n.rename symbol name) := by
  have hvalue : m.valueName? symbol.value = n.valueName? symbol.value := by
    cases symbol with
    | global id => simp only [Symbol.value, valueName?, h.globals_eq]
    | function id => exact h.functionName_eq id
  have hreleased : m.released symbol = n.released symbol := by
    rw [released, released, hvalue, h.symbols_eq]
  unfold Module.rename
  rw [hreleased]
  cases symbol with
  | global id =>
    exact ⟨h.name_eq, h.target_eq, rfl, by rw [h.globals_eq], h.length_eq, h.others, h.same⟩
  | function id => exact h.modify_name _ id (some name)

/-- Naming a value. -/
theorem setName (h : SameBut k parameters names m n) (value : Value) (name : String) :
    SameButAnswers k parameters names ((m.setName value name).map fun m => ((), m))
      ((n.setName value name).map fun n => ((), n)) := by
  have hsymbol : m.symbolOf value = n.symbolOf value := by
    cases value <;> simp only [symbolOf, h.globals_eq, h.length_eq]
  unfold Module.setName
  rw [hsymbol, h.lookup?_eq]
  split
  · rfl
  · split
    · split
      · exact ⟨rfl, h⟩
      · rfl
    · exact ⟨rfl, h.rename _ name⟩

/-- Outside of the function with other names, a name stands for the same. -/
theorem resolve_eq (h : SameBut k parameters names m n) {function : Option Nat}
    (hfunction : function ≠ some k) (name : String) :
    m.resolve function name = n.resolve function name := by
  cases function with
  | none => simp only [resolve, global?, h.lookup?_eq]
  | some id =>
    have hid : id ≠ k := fun heq => hfunction (congrArg some heq)
    simp only [resolve, Module.parameters, h.others id hid, global?, h.lookup?_eq]

/-- The names of the parameters. -/
theorem parameterNames_left (h : SameBut k parameters names m n) :
    m.parameterNames (some k) = parameters := by
  obtain ⟨f, _, hf, _, hsame⟩ := h.same
  simp only [parameterNames, hf, hsame.left_parameters]

/-- The other names of the parameters. -/
theorem parameterNames_right (h : SameBut k parameters names m n) :
    n.parameterNames (some k) = names := by
  obtain ⟨_, g, _, hg, hsame⟩ := h.same
  simp only [parameterNames, hg, hsame.right_parameters]

/-- In the function with other names, each name of a parameter stands for it. -/
theorem resolve_parameter (h : SameBut k parameters names m n) (hleft : parameters.Nodup)
    (hright : names.Nodup) {index : Nat} {name other : String}
    (hname : parameters[index]? = some name) (hother : names[index]? = some other) :
    m.resolve (some k) name = some (.parameter (.parameter k index)) ∧
      n.resolve (some k) other = some (.parameter (.parameter k index)) := by
  rw [← h.parameterNames_left] at hleft hname
  rw [← h.parameterNames_right] at hright hother
  exact ⟨resolve_of_getElem? hleft hname, resolve_of_getElem? hright hother⟩

/-- In the function with other names, what is no parameter under its name stands for the same. -/
theorem resolve_global (h : SameBut k parameters names m n) {name : String}
    (hleft : name ∉ parameters) (hright : name ∉ names) :
    m.resolve (some k) name = n.resolve (some k) name := by
  rw [resolve_of_not_mem (h.parameterNames_left ▸ hleft),
    resolve_of_not_mem (h.parameterNames_right ▸ hright), global?, global?, h.lookup?_eq]

end SameBut

end Module

end LambdaArith
