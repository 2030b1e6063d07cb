import LambdaArith.Proofs.Lines
import LambdaArith.Proofs.Namespace
import LambdaArith.Proofs.SingleAssignment

/-!
# Operands are told by their text

An operand is written by its name only, with one mark for the values of a function and another for
globals. Names are distinct among the values of a function, and among globals. So within a function
the text of an operand says which value it is.
-/

namespace LambdaArith

/-- A parameter or a result of the function at this place. -/
def Value.LocalTo (id : Nat) : Value → Prop
  | parameter owner _ => owner = id
  | result owner _ => owner = id
  | _ => False

/-- A value that the function at this place can be written with: as a number, or by its name. -/
inductive Value.Shown (m : Module) (id : Nat) : Value → Prop
  | constant (x : Float) : Shown m id (.constant x)
  | inner {value : Value} {name : String} :
      value.LocalTo id → m.valueName? value = some name → Shown m id value
  | global {place : Nat} {name : String} :
      m.valueName? (.global place) = some name → Shown m id (.global place)

/-- Results that have the same name are the same. -/
theorem Func.Structured.index_unique {f : Func} (hf : f.Structured) {i j : Nat} {name : String}
    (hi : (f.instructions[i]?).bind Instruction.name = some name)
    (hj : (f.instructions[j]?).bind Instruction.name = some name) : i = j := by
  have hpairwise := List.pairwise_filterMap.mp (List.nodup_append.mp hf.names_nodup).2.1
  have hne : ∀ {i j : Nat}, (f.instructions[i]?).bind Instruction.name = some name →
      (f.instructions[j]?).bind Instruction.name = some name → ¬ i < j := by
    intro i j hi hj hlt
    obtain ⟨a, ha, hname⟩ := Option.bind_eq_some_iff.mp hi
    obtain ⟨b, hb, hname'⟩ := Option.bind_eq_some_iff.mp hj
    obtain ⟨hia, rfl⟩ := List.getElem?_eq_some_iff.mp ha
    obtain ⟨hjb, rfl⟩ := List.getElem?_eq_some_iff.mp hb
    exact List.pairwise_iff_getElem.mp hpairwise i j hia hjb hlt name hname name hname' rfl
  have hbefore := hne hi hj
  have hbehind := hne hj hi
  omega

/-- A result does not have the name of a parameter. -/
theorem Func.Structured.parameter_ne_result {f : Func} (hf : f.Structured) {i j : Nat}
    {name : String} (hi : f.parameters[i]? = some name)
    (hj : (f.instructions[j]?).bind Instruction.name = some name) : False := by
  have hdisjoint := (List.nodup_append.mp hf.names_nodup).2.2
  obtain ⟨instruction, hinstruction, hname⟩ := Option.bind_eq_some_iff.mp hj
  have hmem := List.mem_filterMap.mpr ⟨instruction, List.mem_of_getElem? hinstruction, hname⟩
  exact hdisjoint name (List.mem_of_getElem? hi) name hmem rfl

/-- Parameters that have the same name are the same. -/
theorem Func.Structured.parameter_unique {f : Func} (hf : f.Structured) {i j : Nat}
    {name : String} (hi : f.parameters[i]? = some name) (hj : f.parameters[j]? = some name) :
    i = j := by
  have hnodup := (List.nodup_append.mp hf.names_nodup).1
  have hlt := (List.getElem?_eq_some_iff.mp hi).1
  exact (List.getElem?_inj hlt hnodup).mp (hi.trans hj.symm)

namespace Module

variable {m n : Module} {id : Nat} {f g : Func} {value other : Value} {name : String}

/-- The name of a parameter. -/
theorem valueName?_parameter (hf : m.functions[id]? = some f) (index : Nat) :
    m.valueName? (.parameter id index) = f.parameters[index]? := by
  simp [Module.valueName?, hf]

/-- The name of a result is that of its instruction. -/
theorem valueName?_result (hf : m.functions[id]? = some f) (index : Nat) :
    m.valueName? (.result id index) = (f.instructions[index]?).bind Instruction.name := by
  simp [Module.valueName?, hf]

/-- No two values of a function have the same name. -/
theorem local_unique (hm : m.Structured) (hf : m.functions[id]? = some f)
    (hvalue : value.LocalTo id) (hother : other.LocalTo id)
    (hname : m.valueName? value = some name) (hname' : m.valueName? other = some name) :
    value = other := by
  have hstructured := hm f (List.mem_of_getElem? hf)
  cases value with
  | parameter owner index =>
    cases hvalue
    rw [valueName?_parameter hf] at hname
    cases other with
    | parameter owner' index' =>
      cases hother
      rw [valueName?_parameter hf] at hname'
      rw [hstructured.parameter_unique hname hname']
    | result owner' index' =>
      cases hother
      rw [valueName?_result hf] at hname'
      exact (hstructured.parameter_ne_result hname hname').elim
    | constant | global | function => cases hother
  | result owner index =>
    cases hvalue
    rw [valueName?_result hf] at hname
    cases other with
    | parameter owner' index' =>
      cases hother
      rw [valueName?_parameter hf] at hname'
      exact (hstructured.parameter_ne_result hname' hname).elim
    | result owner' index' =>
      cases hother
      rw [valueName?_result hf] at hname'
      rw [hstructured.index_unique hname hname']
    | constant | global | function => cases hother
  | constant | global | function => cases hvalue

/-- A value of a function is written with its name. -/
theorem operandText_of_localTo (hvalue : value.LocalTo id)
    (hname : m.valueName? value = some name) :
    m.operandText value = "%" ++ name := by
  cases value with
  | parameter | result => simp [operandText, hname]
  | constant | global | function => cases hvalue

/-- A global is written with its name. -/
theorem operandText_of_global {place : Nat} (hname : m.valueName? (.global place) = some name) :
    m.operandText (.global place) = "@" ++ name := by
  simp [operandText, hname]

/-- A number is not written with a mark. -/
theorem moduleFloat_ne_marked {x : Float} {mark : Char} {rest : List Char}
    (hmark : isFloatChar mark = false) : (moduleFloat x).toList ≠ mark :: rest := by
  intro heq
  have hchar : isFloatChar mark = true :=
    isFloatChar_of_mem_moduleFloat (heq ▸ List.mem_cons_self)
  rw [hmark] at hchar
  cases hchar

/-- The values that a function can be written with are told by their text. -/
theorem eq_of_operandText (hm : m.Structured) (hc : m.Consistent)
    (hf : m.functions[id]? = some f) (hvalue : value.Shown m id) (hother : other.Shown m id)
    (h : m.operandText value = m.operandText other) : value = other := by
  have hlist := congrArg String.toList h
  cases hvalue with
  | constant x =>
    cases hother with
    | constant y => rw [moduleFloat_injective h]
    | inner hlocal' hname' =>
      rw [operandText_of_localTo hlocal' hname', String.toList_append] at hlist
      exact absurd hlist (moduleFloat_ne_marked rfl)
    | global hname' =>
      rw [operandText_of_global hname', String.toList_append] at hlist
      exact absurd hlist (moduleFloat_ne_marked rfl)
  | @inner _ name hlocal hname =>
    rw [operandText_of_localTo hlocal hname] at h hlist
    cases hother with
    | constant y =>
      rw [String.toList_append] at hlist
      exact absurd hlist.symm (moduleFloat_ne_marked rfl)
    | @inner _ name' hlocal' hname' =>
      rw [operandText_of_localTo hlocal' hname', String.append_right_inj] at h
      subst h
      exact local_unique hm hf hlocal hlocal' hname hname'
    | global hname' =>
      rw [operandText_of_global hname'] at hlist
      simp at hlist
  | @global place name hname =>
    rw [operandText_of_global hname] at h hlist
    cases hother with
    | constant y =>
      rw [String.toList_append] at hlist
      exact absurd hlist.symm (moduleFloat_ne_marked rfl)
    | inner hlocal' hname' =>
      rw [operandText_of_localTo hlocal' hname'] at hlist
      simp at hlist
    | @global place' name' hname' =>
      rw [operandText_of_global hname', String.append_right_inj] at h
      subst h
      have hsymbol : Symbol.global place = .global place' := hc.symbol_unique hname hname'
      rw [Symbol.global.inj hsymbol]

/-- What is available to an instruction of a plain function is shown by the text. -/
theorem Plain.shown_of_available (hm : m.Plain) (hf : m.functions[id]? = some f) {index : Nat}
    (h : value.Available f id m.globals.length index) : value.Shown m id := by
  have hplain := hm.functions f (List.mem_of_getElem? hf)
  cases value with
  | constant x => exact .constant x
  | parameter owner place =>
    obtain ⟨rfl, hlt⟩ := h
    have hname := valueName?_parameter hf place
    rw [List.getElem?_eq_getElem hlt] at hname
    exact .inner rfl hname
  | result owner place =>
    obtain ⟨rfl, _, instruction, hinstruction, haction⟩ := h
    cases hplain.instructions instruction (List.mem_of_getElem? hinstruction) with
    | compute op lhs rhs =>
      have hname := valueName?_result hf place
      rw [hinstruction, Option.bind_some] at hname
      exact .inner rfl hname
    | ret value => cases haction
  | global place =>
    have hlt : place < m.globals.length := h
    have hname : m.valueName? (.global place) = some m.globals[place].name := by
      simp [Module.valueName?, List.getElem?_eq_getElem hlt]
    exact .global hname
  | function => exact h.elim

/-- What is known of the modules of sessions: names are distinct and plain, and functions are
complete and refer to what is there. -/
structure Legible (m : Module) : Prop where
  consistent : m.Consistent
  structured : m.Structured
  complete : m.Complete
  plain : m.Plain

/-- All operands of an instruction are shown by the text. -/
theorem Legible.shown_of_mem_operands (hm : m.Legible) (hf : m.functions[id]? = some f)
    {instruction : Instruction} (hinstruction : instruction ∈ f.instructions)
    (hvalue : value ∈ instruction.action.operands) : value.Shown m id := by
  obtain ⟨index, hindex⟩ := List.mem_iff_getElem?.mp hinstruction
  have havailable := (hm.complete id f hf).in_scope index instruction hindex value hvalue
  exact hm.plain.shown_of_available hf havailable

/-- Functions at the same place of two modules whose globals, parameters and results have the same
names. -/
structure SameNames (m n : Module) (id : Nat) (f g : Func) : Prop where
  left : m.functions[id]? = some f
  right : n.functions[id]? = some g
  globals_eq : m.globals = n.globals
  parameters_eq : f.parameters = g.parameters
  results_eq : f.instructions.map Instruction.name = g.instructions.map Instruction.name

namespace SameNames

/-- The values of the function have the same names. -/
theorem valueName?_eq (h : SameNames m n id f g) (hvalue : value.LocalTo id) :
    m.valueName? value = n.valueName? value := by
  cases value with
  | parameter owner index =>
    cases hvalue
    rw [valueName?_parameter h.left, valueName?_parameter h.right, h.parameters_eq]
  | result owner index =>
    cases hvalue
    have hnames : (f.instructions[index]?).map Instruction.name =
        (g.instructions[index]?).map Instruction.name := by
      rw [← List.getElem?_map, h.results_eq, List.getElem?_map]
    rw [valueName?_result h.left, valueName?_result h.right]
    cases hleft : f.instructions[index]? <;> cases hright : g.instructions[index]? <;>
      simp_all
  | constant | global | function => cases hvalue

/-- Globals have the same names. -/
theorem valueName?_global (h : SameNames m n id f g) (place : Nat) :
    m.valueName? (.global place) = n.valueName? (.global place) := by
  simp [Module.valueName?, h.globals_eq]

/-- What one function can be written with is written in the same way in the other. -/
theorem shown_and_operandText_eq (h : SameNames m n id f g) (hvalue : value.Shown n id) :
    value.Shown m id ∧ m.operandText value = n.operandText value := by
  cases hvalue with
  | constant x => exact ⟨.constant x, rfl⟩
  | inner hlocal hname =>
    have hsame := (h.valueName?_eq hlocal).trans hname
    exact ⟨.inner hlocal hsame,
      (operandText_of_localTo hlocal hsame).trans (operandText_of_localTo hlocal hname).symm⟩
  | @global place _ hname =>
    have hsame := (h.valueName?_global place).trans hname
    exact ⟨.global hsame, (operandText_of_global hsame).trans (operandText_of_global hname).symm⟩

/-- Instructions with the same lines are the same. -/
theorem instructions_eq (h : SameNames m n id f g) (hm : m.Legible) (hn : n.Legible)
    (hlines : f.instructions.map m.instructionLine = g.instructions.map n.instructionLine) :
    f.instructions = g.instructions := by
  have hf := hm.plain.functions f (List.mem_of_getElem? h.left)
  have hg := hn.plain.functions g (List.mem_of_getElem? h.right)
  refine eq_of_map_eq (fun i hi j hj hline => ?_) hlines
  obtain ⟨hname, hoperator, htexts⟩ := hm.plain.instructionLine_inj hn.plain
    (hf.instructions i hi) (hg.instructions j hj) hline
  have hoperands : i.action.operands = j.action.operands := by
    refine eq_of_map_eq (fun value hvalue other hother htext => ?_) htexts
    have hshown := hm.shown_of_mem_operands h.left hi hvalue
    obtain ⟨hshown', htext'⟩ := h.shown_and_operandText_eq
      (hn.shown_of_mem_operands h.right hj hother)
    exact eq_of_operandText hm.structured hm.consistent h.left hshown hshown'
      (htext.trans htext'.symm)
  have haction := Action.ext_operands hoperator hoperands
  cases i
  cases j
  simp_all

end SameNames

end Module

end LambdaArith
