import LambdaArith.Proofs.FreeNames
import LambdaArith.Proofs.Invariant

/-!
# The structure of function bodies

The instructions of a function are listed once for the function, in the order in which they have
been added, and once in each block by their indices. The two lists agree however the insertion point
moves, and a name is taken in the function exactly if a parameter or a result has it.
-/

namespace LambdaArith

/-- The indices in the blocks are those of the instructions, each block has a return at its end at
most, and the names that are taken are those that are given, each of them once. -/
structure Func.Structured (f : Func) : Prop where
  increasing : ∀ block ∈ f.blocks, block.instructions.Pairwise (· < ·)
  disjoint : ∀ (i j : Nat) (a b : Block), i ≠ j → f.blocks[i]? = some a → f.blocks[j]? = some b →
    ∀ index ∈ a.instructions, index ∉ b.instructions
  complete : ∀ index, index < f.instructions.length ↔ ∃ block ∈ f.blocks, index ∈ block.instructions
  /-- No instruction before the last of a block returns. -/
  ret_last : ∀ block ∈ f.blocks, ∀ index ∈ block.instructions.dropLast, ∀ instruction,
    f.instructions[index]? = some instruction → instruction.action.isTerminator = false
  emittable : ∀ instruction ∈ f.instructions, instruction.action.Emittable
  names_nodup : (f.parameters ++ f.instructions.filterMap Instruction.name).Nodup
  localNames_eq : f.localNames = f.parameters ++ f.instructions.filterMap Instruction.name

/-- A block with one more instruction at its end. -/
def Block.push (block : Block) (index : Nat) : Block :=
  { block with instructions := block.instructions ++ [index] }

namespace Func

variable {f : Func} {place : Nat} {block : Block} {wanted : Option String} {action : Action}

/-- The blocks of a function when an instruction has been added to one of them. -/
theorem getElem?_blocks_append (f : Func) (place : Nat) (wanted : Option String) (action : Action)
    (i : Nat) :
    (f.append place wanted action).blocks[i]? =
      if i = place then f.blocks[i]?.map fun block => block.push f.instructions.length
      else f.blocks[i]? := by
  have hblocks : (f.append place wanted action).blocks =
      f.blocks.modify place fun block => block.push f.instructions.length := rfl
  rw [hblocks, List.getElem?_modify]
  by_cases h : i = place
  · simp only [h, if_true]
    rfl
  · have hne : ¬ place = i := fun heq => h heq.symm
    simp only [h, hne, if_false]
    exact Option.map_id'

/-- A block of a function to which an instruction has been added is an old one or the one with the
instruction. -/
theorem mem_blocks_append (hblock : f.blocks[place]? = some block) {b : Block}
    (hb : b ∈ (f.append place wanted action).blocks) :
    b ∈ f.blocks ∨ b = block.push f.instructions.length := by
  obtain ⟨i, hi⟩ := List.mem_iff_getElem?.mp hb
  rw [getElem?_blocks_append] at hi
  split at hi
  · rename_i heq
    rw [heq, hblock] at hi
    exact .inr (Option.some.inj hi).symm
  · exact .inl (List.mem_of_getElem? hi)

/-- What an index is in after an instruction has been added: in the same block as before, or the new
index in the block that it has been added to. -/
theorem mem_of_getElem?_blocks_append (hblock : f.blocks[place]? = some block) {i index : Nat}
    {b : Block} (hb : (f.append place wanted action).blocks[i]? = some b)
    (hindex : index ∈ b.instructions) :
    (∃ a, f.blocks[i]? = some a ∧ index ∈ a.instructions) ∨
      i = place ∧ index = f.instructions.length := by
  rw [getElem?_blocks_append] at hb
  split at hb
  · rename_i heq
    rw [heq, hblock] at hb
    cases hb
    rcases List.mem_append.mp hindex with hold | hnew
    · exact .inl ⟨block, by rw [heq, hblock], hold⟩
    · exact .inr ⟨heq, List.mem_singleton.mp hnew⟩
  · exact .inl ⟨b, hb, hindex⟩

/-- The indices in the blocks after an instruction has been added: the old ones and the new one. -/
theorem exists_mem_blocks_append_iff (hblock : f.blocks[place]? = some block) {index : Nat} :
    (∃ b ∈ (f.append place wanted action).blocks, index ∈ b.instructions) ↔
      (∃ b ∈ f.blocks, index ∈ b.instructions) ∨ index = f.instructions.length := by
  have hnew : (f.append place wanted action).blocks[place]? =
      some (block.push f.instructions.length) := by
    rw [getElem?_blocks_append, if_pos rfl, hblock, Option.map_some]
  constructor
  · rintro ⟨b, hb, hindex⟩
    obtain ⟨i, hi⟩ := List.mem_iff_getElem?.mp hb
    rcases mem_of_getElem?_blocks_append hblock hi hindex with ⟨a, ha, hindex'⟩ | ⟨_, hlast⟩
    · exact .inl ⟨a, List.mem_of_getElem? ha, hindex'⟩
    · exact .inr hlast
  · rintro (⟨b, hb, hindex⟩ | rfl)
    · obtain ⟨i, hi⟩ := List.mem_iff_getElem?.mp hb
      by_cases hplace : i = place
      · rw [hplace, hblock, Option.some.injEq] at hi
        subst hi
        exact ⟨_, List.mem_of_getElem? hnew, List.mem_append_left _ hindex⟩
      · have hsame : (f.append place wanted action).blocks[i]? = some b := by
          rw [getElem?_blocks_append, if_neg hplace, hi]
        exact ⟨b, List.mem_of_getElem? hsame, hindex⟩
    · exact ⟨_, List.mem_of_getElem? hnew, List.mem_append_right _ List.mem_cons_self⟩

/-- The instruction that is added has a free name, if it asks for one, and the name is taken from
then on. -/
theorem exists_name_append (f : Func) (place : Nat) (wanted : Option String) (action : Action) :
    ∃ name : Option String,
      (f.append place wanted action).instructions = f.instructions ++ [⟨name, action⟩] ∧
      (f.append place wanted action).localNames = f.localNames ++ name.toList ∧
      (f.localNames.Nodup → (f.localNames ++ name.toList).Nodup) := by
  cases wanted with
  | none => exact ⟨none, rfl, (List.append_nil _).symm, fun h => by simpa using h⟩
  | some base =>
    exact ⟨some (LocalName.firstFree f.localNames base), rfl, rfl,
      fun h => LocalName.nodup_append_firstFree h base⟩

namespace Structured

/-- The indices in blocks are those of instructions. -/
theorem index_lt (h : f.Structured) (hblock : block ∈ f.blocks) {index : Nat}
    (hindex : index ∈ block.instructions) : index < f.instructions.length :=
  (h.complete index).mpr ⟨block, hblock, hindex⟩

/-- No instruction of a block that is not terminated returns. -/
theorem not_terminator (h : f.Structured) (hblock : block ∈ f.blocks)
    (hopen : f.isTerminated block = false) {index : Nat} (hindex : index ∈ block.instructions)
    {instruction : Instruction} (hinstruction : f.instructions[index]? = some instruction) :
    instruction.action.isTerminator = false := by
  rcases List.eq_nil_or_concat block.instructions with hnil | ⟨before, last, hlast⟩
  · rw [hnil] at hindex
    cases hindex
  · rw [List.concat_eq_append] at hlast
    rw [hlast, List.mem_append, List.mem_singleton] at hindex
    rcases hindex with hbefore | rfl
    · have hdrop : index ∈ block.instructions.dropLast := by
        rw [hlast, List.dropLast_concat]
        exact hbefore
      exact h.ret_last block hblock index hdrop instruction hinstruction
    · simpa [isTerminated, hlast, hinstruction] using hopen

/-- A function that has only been declared is structured. -/
theorem declare (parameters : List String) : (Func.declare parameters).Structured := by
  obtain ⟨htaken, hnodup⟩ := LocalName.reserveAll_nodup List.nodup_nil parameters
  rw [List.nil_append] at htaken
  rw [htaken] at hnodup
  have hnames : (Func.declare parameters).parameters ++
      (Func.declare parameters).instructions.filterMap Instruction.name =
        (LocalName.reserveAll [] parameters).1 := List.append_nil _
  refine ⟨nofun, nofun, fun index => ⟨nofun, nofun⟩, nofun, nofun, ?_, ?_⟩
  · rw [hnames]
    exact hnodup
  · rw [hnames]
    exact htaken

/-- A function stays structured when it gets another name. -/
theorem named (h : f.Structured) (name : Option String) :
    Structured { f with name := name } :=
  ⟨h.increasing, h.disjoint, h.complete, h.ret_last, h.emittable, h.names_nodup, h.localNames_eq⟩

/-- A function stays structured when it gets another block, which is empty. -/
theorem appendBlock (h : f.Structured) (label : String) : (f.appendBlock label).Structured := by
  have hmem {b : Block} (hb : b ∈ (f.appendBlock label).blocks) :
      b ∈ f.blocks ∨ b = ⟨label, []⟩ := by
    rcases List.mem_append.mp hb with hold | hnew
    · exact .inl hold
    · exact .inr (List.mem_singleton.mp hnew)
  have hplace {i index : Nat} {b : Block} (hb : (f.appendBlock label).blocks[i]? = some b)
      (hindex : index ∈ b.instructions) : f.blocks[i]? = some b := by
    have hblocks : (f.appendBlock label).blocks = f.blocks ++ [⟨label, []⟩] := rfl
    rw [hblocks] at hb
    rcases getElem?_append_singleton_cases hb with hold | ⟨_, rfl⟩
    · exact hold
    · cases hindex
  refine ⟨?_, ?_, ?_, ?_, h.emittable, h.names_nodup, h.localNames_eq⟩
  · intro b hb
    rcases hmem hb with hold | rfl
    · exact h.increasing b hold
    · exact .nil
  · intro i j a b hne ha hb index hina hinb
    exact h.disjoint i j a b hne (hplace ha hina) (hplace hb hinb) index hina hinb
  · intro index
    have hlength : (f.appendBlock label).instructions.length = f.instructions.length := rfl
    rw [hlength, h.complete index]
    constructor
    · rintro ⟨b, hb, hindex⟩
      exact ⟨b, List.mem_append_left _ hb, hindex⟩
    · rintro ⟨b, hb, hindex⟩
      rcases hmem hb with hold | rfl
      · exact ⟨b, hold, hindex⟩
      · cases hindex
  · intro b hb index hindex
    rcases hmem hb with hold | rfl
    · exact h.ret_last b hold index hindex
    · cases hindex

/-- Blocks still have no instruction in common when one is added, as its index is new. -/
theorem disjoint_append (h : f.Structured) (hblock : f.blocks[place]? = some block) {i j : Nat}
    {a b : Block} (hne : i ≠ j) (ha : (f.append place wanted action).blocks[i]? = some a)
    (hb : (f.append place wanted action).blocks[j]? = some b) {index : Nat}
    (hina : index ∈ a.instructions) : index ∉ b.instructions := by
  intro hinb
  rcases mem_of_getElem?_blocks_append hblock ha hina with ⟨a', ha', hina'⟩ | ⟨hplace, hlast⟩
  · rcases mem_of_getElem?_blocks_append hblock hb hinb with ⟨b', hb', hinb'⟩ | ⟨_, hlast⟩
    · exact h.disjoint i j a' b' hne ha' hb' index hina' hinb'
    · have hlt := h.index_lt (List.mem_of_getElem? ha') hina'
      omega
  · rcases mem_of_getElem?_blocks_append hblock hb hinb with ⟨b', hb', hinb'⟩ | ⟨hplace', _⟩
    · have hlt := h.index_lt (List.mem_of_getElem? hb') hinb'
      omega
    · omega

/-- Returns are still at the ends of blocks when an instruction is added to a block without a
return. -/
theorem ret_last_append (h : f.Structured) (hblock : f.blocks[place]? = some block)
    (hopen : f.isTerminated block = false) {b : Block}
    (hb : b ∈ (f.append place wanted action).blocks) {index : Nat}
    (hindex : index ∈ b.instructions.dropLast) {instruction : Instruction}
    (hinstruction : (f.append place wanted action).instructions[index]? = some instruction) :
    instruction.action.isTerminator = false := by
  have hmem : block ∈ f.blocks := List.mem_of_getElem? hblock
  obtain ⟨name, hinstructions, _⟩ := f.exists_name_append place wanted action
  rw [hinstructions] at hinstruction
  rcases mem_blocks_append hblock hb with hold | rfl
  · have hlt := h.index_lt hold (List.dropLast_subset _ hindex)
    rw [List.getElem?_append_left hlt] at hinstruction
    exact h.ret_last b hold index hindex instruction hinstruction
  · rw [Block.push, List.dropLast_concat] at hindex
    have hlt := h.index_lt hmem hindex
    rw [List.getElem?_append_left hlt] at hinstruction
    exact h.not_terminator hmem hopen hindex hinstruction

/-- A function stays structured when an instruction that a builder adds comes to a block that is not
terminated. The index of the instruction is greater than all others. -/
theorem append (h : f.Structured) (hblock : f.blocks[place]? = some block)
    (hopen : f.isTerminated block = false) (wanted : Option String) (haction : action.Emittable) :
    (f.append place wanted action).Structured := by
  have hmem : block ∈ f.blocks := List.mem_of_getElem? hblock
  obtain ⟨name, hinstructions, hlocal, hnodup⟩ := f.exists_name_append place wanted action
  have hnames : (f.append place wanted action).parameters ++
      (f.append place wanted action).instructions.filterMap Instruction.name =
        f.localNames ++ name.toList := by
    have hparameters : (f.append place wanted action).parameters = f.parameters := rfl
    rw [hparameters, hinstructions, List.filterMap_append, ← List.append_assoc, ← h.localNames_eq]
    cases name <;> rfl
  refine ⟨?_, ?_, ?_, ?_, ?_, ?_, ?_⟩
  · intro b hb
    rcases mem_blocks_append hblock hb with hold | rfl
    · exact h.increasing b hold
    · refine List.pairwise_append.mpr ⟨h.increasing block hmem, List.pairwise_singleton _ _, ?_⟩
      intro index hindex last hlast
      rw [List.mem_singleton.mp hlast]
      exact h.index_lt hmem hindex
  · exact fun i j a b hne ha hb index hina => h.disjoint_append hblock hne ha hb hina
  · intro index
    rw [exists_mem_blocks_append_iff hblock, ← h.complete, hinstructions, List.length_append,
      List.length_singleton]
    omega
  · exact fun b hb index hindex _ => h.ret_last_append hblock hopen hb hindex
  · intro instruction hinstruction
    rw [hinstructions, List.mem_append, List.mem_singleton] at hinstruction
    rcases hinstruction with hold | rfl
    · exact h.emittable instruction hold
    · exact haction
  · rw [hnames]
    have hlocals : f.localNames.Nodup := h.localNames_eq ▸ h.names_nodup
    exact hnodup hlocals
  · rw [hnames, hlocal]

end Structured

end Func

end LambdaArith
