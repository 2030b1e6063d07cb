import LambdaArith.Module.Text
import LambdaArith.Proofs.Request
import LambdaArith.Proofs.Structure

/-!
# Function bodies keep their structure

In every module that requests make, all functions are structured. What goes by the index of an
instruction or a function therefore never reaches behind the end of a list: adding instructions,
listing them and writing the module come to the same if every such index is checked first.
-/

namespace LambdaArith

namespace Module

/-- Every function of the module is structured. -/
def Structured (m : Module) : Prop :=
  ∀ f ∈ m.functions, f.Structured

variable {m after : Module}

/-- A module stays structured when one of its functions is replaced by a structured one. -/
theorem Structured.set (hm : m.Structured) (id : Nat) {g : Func} (hg : g.Structured) :
    Structured { m with functions := m.functions.set id g } := by
  intro f hf
  rcases List.mem_or_eq_of_mem_set hf with hold | rfl
  · exact hm f hold
  · exact hg

/-- A module stays structured when a symbol is renamed. -/
theorem Structured.rename (hm : m.Structured) (symbol : Symbol) (name : String) :
    (m.rename symbol name).Structured := by
  intro f hf
  obtain ⟨id, hid⟩ := List.mem_iff_getElem?.mp hf
  obtain ⟨g, given, hg, rfl⟩ := exists_of_getElem?_rename hid
  have hold : g.Structured := hm g (List.mem_of_getElem? hg)
  exact hold.named given

/-- That all functions are structured is an invariant. -/
theorem structured_invariant : Invariant Structured where
  setTarget := fun _ hm => hm
  addGlobal := fun hm hok => by
    obtain ⟨_, _, _, _, rfl⟩ := addGlobal_eq_ok hok
    exact hm
  addFunction := fun parameters hm f hf => by
    rcases List.mem_append.mp hf with hold | hnew
    · exact hm f hold
    · rw [List.mem_singleton.mp hnew]
      exact .declare parameters
  appendBlock := fun hm hok => by
    obtain ⟨f, hf, _, rfl⟩ := appendBlock_eq_ok hok
    have hold := hm f (List.mem_of_getElem? hf)
    exact hm.set _ (hold.appendBlock _)
  setName := fun hm hok => by
    obtain ⟨symbol, _, _, ⟨_, rfl⟩ | ⟨_, rfl⟩⟩ := setName_eq_ok hok
    · exact hm
    · exact hm.rename symbol _
  append := fun hm haction hok => by
    obtain ⟨f, block, hf, hblock, hopen, _, rfl⟩ := append_eq_ok hok
    have hold := hm f (List.mem_of_getElem? hf)
    exact hm.set _ (hold.append hblock hopen _ haction)
  rollback := fun _ hm f hf => hm f (List.mem_of_mem_take hf)

/-- A module without anything in it is structured. -/
theorem structured_empty (name : String) : (empty name).Structured :=
  nofun

end Module

namespace Func

/-- Whether nothing can be added to a block any more; nothing, if its last index is none of an
instruction. -/
def isTerminated? (f : Func) (block : Block) : Option Bool :=
  match block.instructions.getLast? with
  | none => some false
  | some index => (f.instructions[index]?).map fun instruction => instruction.action.isTerminator

/-- The instructions of a block, if all its indices are those of instructions. -/
def blockInstructions? (f : Func) (block : Block) : Option (List Instruction) :=
  block.instructions.mapM fun index => f.instructions[index]?

/-- The instructions in the order of the blocks, if all indices are those of instructions. -/
def orderedInstructions? (f : Func) : Option (List Instruction) :=
  (f.blocks.mapM f.blockInstructions?).map List.flatten

end Func

namespace Module

/-- Adds an instruction to a block, if the last index in the block is that of an instruction. -/
def append? (m : Module) (point : InsertPoint) (wanted : Option String) (action : Action) :
    Option (Except BackendError (Value × Module)) :=
  match m.functions[point.function]? with
  | none => some (.error (.dangling "function"))
  | some f =>
    match f.blocks[point.block]? with
    | none => some (.error (.dangling "block"))
    | some block =>
      (f.isTerminated? block).map fun terminated =>
        if terminated then .error .blockTerminated
        else .ok (.result point.function f.instructions.length, { m with
          functions := m.functions.set point.function (f.append point.block wanted action) })

/-- The instructions of a function, if all indices in it are those of instructions. -/
def instructions? (m : Module) (function : Nat) : Option (List Instruction) :=
  match m.functions[function]? with
  | none => some []
  | some f => f.orderedInstructions?

/-- How a function is written as an operand, if there is one at this place. -/
def functionLabel? (m : Module) (id : Nat) : Option String :=
  (m.functions[id]?).map fun f =>
    match f.name with
    | some name => "@" ++ name
    | none => "@" ++ toString ((m.functions.take id).countP fun f => f.name.isNone)

/-- How a value is written as an operand, if no function is written that does not exist. -/
def operandText? (m : Module) (value : Value) : Option String :=
  match value with
  | .function id =>
    if id < m.functions.length then m.functionLabel? id
    else some ("%" ++ (m.valueName? value).getD "?")
  | _ => some (m.operandText value)

/-- The line of an instruction, if its operands can be written. -/
def instructionLine? (m : Module) (instruction : Instruction) : Option String :=
  match instruction.action with
  | .compute op lhs rhs => do
    let left ← m.operandText? lhs
    let right ← m.operandText? rhs
    return "  %" ++ instruction.name.getD "?" ++ " = " ++ op.mnemonic ++ " double " ++
      left ++ ", " ++ right
  | .ret value => do
    let text ← m.operandText? value
    return "  ret double " ++ text

/-- The lines of a block, if all its indices are those of instructions that can be written. -/
def blockLines? (m : Module) (f : Func) (block : Block) : Option (List String) := do
  let instructions ← f.blockInstructions? block
  let lines ← instructions.mapM m.instructionLine?
  return (block.label ++ ":") :: lines

/-- The lines of the function at a place, if there is one and it can be written. -/
def functionLines? (m : Module) (id : Nat) : Option (List String) := do
  let f ← m.functions[id]?
  let label ← m.functionLabel? id
  let parameters := ", ".intercalate (f.parameters.map fun name => "double %" ++ name)
  let signature := " double " ++ label ++ "(" ++ parameters ++ ")"
  if f.blocks.isEmpty then return ["", "declare" ++ signature]
  else
    let body ← f.blocks.mapM (m.blockLines? f)
    let head := "define" ++ signature ++ (if m.target.isSome then " #0" else "") ++ " \x7b"
    return "" :: head :: (body.flatten ++ ["\x7d"])

/-- The text of a module, if all its functions can be written. -/
def text? (m : Module) : Option String := do
  let functions ← (List.range m.functions.length).mapM m.functionLines?
  return String.join ((m.headerLines ++
    (if m.globals.isEmpty then [] else "" :: m.globals.map globalLine) ++
      functions.flatten ++ m.attributeLines).map fun line => line ++ "\n")

end Module

/-- What succeeds for each element of a list does so for the list. -/
theorem mapM_eq_some_map {α β : Type} {l : List α} {f : α → Option β} {g : α → β}
    (h : ∀ a ∈ l, f a = some (g a)) : l.mapM f = some (l.map g) := by
  induction l with
  | nil => rfl
  | cons a rest ih =>
    have hrest := ih fun b hb => h b (List.mem_cons_of_mem a hb)
    rw [List.mapM_cons, h a List.mem_cons_self, hrest]
    rfl

/-- Where nothing fails, leaving out what fails leaves out nothing. -/
theorem mapM_eq_some_filterMap {α β : Type} {l : List α} {f : α → Option β}
    (h : ∀ a ∈ l, (f a).isSome = true) : l.mapM f = some (l.filterMap f) := by
  induction l with
  | nil => rfl
  | cons a rest ih =>
    obtain ⟨b, hb⟩ := Option.isSome_iff_exists.mp (h a List.mem_cons_self)
    have hrest := ih fun c hc => h c (List.mem_cons_of_mem a hc)
    rw [List.mapM_cons, hb, hrest, List.filterMap_cons, hb]
    rfl

namespace Func.Structured

variable {f : Func} {block : Block}

/-- The last index of a block is that of an instruction. -/
theorem isTerminated?_eq (h : f.Structured) (hblock : block ∈ f.blocks) :
    f.isTerminated? block = some (f.isTerminated block) := by
  unfold isTerminated? isTerminated
  cases hlast : block.instructions.getLast? with
  | none => rfl
  | some index =>
    have hlt := h.index_lt hblock (List.mem_of_getLast? hlast)
    simp [List.getElem?_eq_getElem hlt]

/-- All indices of a block are those of instructions. -/
theorem blockInstructions?_eq (h : f.Structured) (hblock : block ∈ f.blocks) :
    f.blockInstructions? block = some (f.blockInstructions block) := by
  have hall : ∀ index ∈ block.instructions, (f.instructions[index]?).isSome = true := by
    intro index hindex
    have hlt := h.index_lt hblock hindex
    simp [hlt]
  exact mapM_eq_some_filterMap hall

/-- All indices of a function are those of instructions. -/
theorem orderedInstructions?_eq (h : f.Structured) :
    f.orderedInstructions? = some f.orderedInstructions := by
  have hblocks : f.blocks.mapM f.blockInstructions? = some (f.blocks.map f.blockInstructions) :=
    mapM_eq_some_map fun block hblock => h.blockInstructions?_eq hblock
  rw [orderedInstructions?, hblocks, Option.map_some, orderedInstructions, List.flatMap_def]

end Func.Structured

namespace Module

/-- Every function that exists can be written as an operand. -/
theorem functionLabel?_eq (m : Module) {id : Nat} (hid : id < m.functions.length) :
    m.functionLabel? id = some (m.functionLabel id) := by
  have hf := List.getElem?_eq_getElem hid
  cases hname : m.functions[id].name with
  | none => simp [functionLabel?, functionLabel, hf, hname]
  | some name => simp [functionLabel?, functionLabel, hf, hname]

/-- Every value can be written as an operand, also one that does not exist. -/
theorem operandText?_eq (m : Module) (value : Value) :
    m.operandText? value = some (m.operandText value) := by
  cases value with
  | function id =>
    by_cases hid : id < m.functions.length
    · simp only [operandText?, operandText, if_pos hid, m.functionLabel?_eq hid]
    · simp only [operandText?, operandText, if_neg hid]
  | _ => rfl

/-- Every instruction can be written. -/
theorem instructionLine?_eq (m : Module) (instruction : Instruction) :
    m.instructionLine? instruction = some (m.instructionLine instruction) := by
  unfold instructionLine? instructionLine
  cases instruction.action with
  | compute op lhs rhs =>
    simp only [m.operandText?_eq]
    rfl
  | ret value =>
    simp only [m.operandText?_eq]
    rfl

/-- Every block of a structured function can be written. -/
theorem blockLines?_eq (m : Module) {f : Func} (hf : f.Structured) {block : Block}
    (hblock : block ∈ f.blocks) :
    m.blockLines? f block =
      some ((block.label ++ ":") :: (f.blockInstructions block).map m.instructionLine) := by
  have hlines : (f.blockInstructions block).mapM m.instructionLine? =
      some ((f.blockInstructions block).map m.instructionLine) :=
    mapM_eq_some_map fun instruction _ => m.instructionLine?_eq instruction
  rw [blockLines?, hf.blockInstructions?_eq hblock, Option.bind_eq_bind, Option.bind_some, hlines]
  rfl

namespace Structured

variable {m : Module}

/-- Adding an instruction never finds an index that is none of an instruction. -/
theorem append?_eq (hm : m.Structured) (point : InsertPoint) (wanted : Option String)
    (action : Action) : m.append? point wanted action = some (m.append point wanted action) := by
  unfold append? Module.append
  cases hf : m.functions[point.function]? with
  | none => rfl
  | some f =>
    cases hblock : f.blocks[point.block]? with
    | none => simp only [hblock]
    | some block =>
      have hstructured := hm f (List.mem_of_getElem? hf)
      have hterminated := hstructured.isTerminated?_eq (List.mem_of_getElem? hblock)
      simp only [hblock, hterminated, Option.map_some]

/-- Listing the instructions of a function never finds an index that is none of an instruction. -/
theorem instructions?_eq (hm : m.Structured) (function : Nat) :
    m.instructions? function = some (m.instructions function) := by
  unfold instructions? instructions
  cases hf : m.functions[function]? with
  | none => rfl
  | some f => exact (hm f (List.mem_of_getElem? hf)).orderedInstructions?_eq

/-- Every function can be written. -/
theorem functionLines?_eq (hm : m.Structured) {id : Nat} {f : Func}
    (hf : m.functions[id]? = some f) : m.functionLines? id = some (m.functionLines id f) := by
  have hstructured := hm f (List.mem_of_getElem? hf)
  have hid : id < m.functions.length := (List.getElem?_eq_some_iff.mp hf).1
  have hbody : f.blocks.mapM (m.blockLines? f) = some (f.blocks.map fun block =>
      (block.label ++ ":") :: (f.blockInstructions block).map m.instructionLine) :=
    mapM_eq_some_map fun block hblock => m.blockLines?_eq hstructured hblock
  simp only [functionLines?, hf, m.functionLabel?_eq hid, hbody, Option.bind_eq_bind,
    Option.bind_some, functionLines, signatureLine]
  split
  · rfl
  · rw [List.flatMap_def]
    rfl

/-- The module can be written. -/
theorem text?_eq (hm : m.Structured) : m.text? = some m.text := by
  have hfunctions : (List.range m.functions.length).mapM m.functionLines? =
      some (m.functions.zipIdx.map fun entry => m.functionLines entry.2 entry.1) := by
    rw [List.range_eq_range', ← List.zipIdx_map_snd 0 m.functions, List.mapM_map]
    exact mapM_eq_some_map fun entry hentry =>
      hm.functionLines?_eq (List.mem_zipIdx_iff_getElem?.mp hentry)
  rw [text?, hfunctions, Option.bind_eq_bind, Option.bind_some, text, lines, List.flatMap_def]
  rfl

end Structured

/-- However requests are mixed, all functions are structured, and no index is used that is none of
an instruction or a function when an instruction is added at any point, when the instructions of a
function are listed and when operands, functions or the whole module are written. This includes the
modules to which lowering adds instructions, as requests for what is lowered first lead to them. -/
theorem bodies_keep_structure (name : String) (requests : List Request) :
    let m := ofRequests name requests
    (∀ f ∈ m.functions, f.Structured) ∧
      (∀ point wanted action,
        m.append? point wanted action = some (m.append point wanted action)) ∧
      (∀ function, m.instructions? function = some (m.instructions function)) ∧
      (∀ id < m.functions.length, m.functionLabel? id = some (m.functionLabel id)) ∧
      (∀ value, m.operandText? value = some (m.operandText value)) ∧
      m.text? = some m.text := by
  intro m
  have hm : m.Structured := structured_invariant.ofRequests structured_empty name requests
  exact ⟨hm, hm.append?_eq, hm.instructions?_eq, fun id hid => m.functionLabel?_eq hid,
    m.operandText?_eq, hm.text?_eq⟩

/-- A function with two blocks that have been filled in turn, the second first. A return has ended
it, and what came after that has been refused. -/
theorem bodies_keep_structure_two_blocks :
    let m := ofRequests "m" [.operation (.addFunction ["a", "a"]),
      .operation (.appendBlock 0 "entry"), .operation (.appendBlock 0 "exit"),
      .within ⟨0, 1⟩ [.operation (.compute .mul (.parameter 0 0) (.parameter 0 1))],
      .within ⟨0, 0⟩ [.operation (.compute .mul (.result 0 0) (.parameter 0 0))],
      .within ⟨0, 1⟩ [.operation (.ret (.result 0 0)), .operation (.ret (.parameter 0 0))]]
    (∃ f ∈ m.functions, f.blocks = [⟨"entry", [1]⟩, ⟨"exit", [0, 2]⟩] ∧
      f.localNames = ["a", "a1", "mulOp", "mulOp1"] ∧ f.Structured) ∧
      0 < m.functions.length ∧ m.functionLabel? 0 = some "@0" := by
  intro m
  obtain ⟨hfunctions, _, _, hlabels, _⟩ := bodies_keep_structure "m" _
  have hlength : 0 < m.functions.length := by decide
  exact ⟨⟨_, List.mem_cons_self, rfl, rfl, hfunctions _ List.mem_cons_self⟩, hlength,
    hlabels 0 hlength⟩

end Module

end LambdaArith
