import LambdaArith.Lowering
import LambdaArith.Proofs.Execution

/-!
# New functions

A function whose parameters differ from each other has them under the names that are written. It
is open as long as no instruction in it returns.
-/

namespace LambdaArith

namespace LocalName

/-- Who asks for a free name gets it. -/
theorem firstFree_of_not_mem {taken : List String} {base : String} (h : base ∉ taken) :
    firstFree taken base = base := by
  simp [firstFree, List.range_succ_eq_map, candidate, h]

/-- Names that are free and differ from each other are all given as they are asked for. -/
theorem reserveAll_of_nodup {taken names : List String} (hnodup : names.Nodup)
    (hfree : ∀ name ∈ names, name ∉ taken) :
    reserveAll taken names = (names, taken ++ names) := by
  induction names generalizing taken with
  | nil => simp [reserveAll]
  | cons name rest ih =>
    rw [List.nodup_cons] at hnodup
    have hname := firstFree_of_not_mem (hfree name List.mem_cons_self)
    have hrest : ∀ other ∈ rest, other ∉ taken ++ [name] := by
      intro other hother hmem
      rcases List.mem_append.mp hmem with htaken | hself
      · exact hfree other (List.mem_cons_of_mem _ hother) htaken
      · rw [List.mem_singleton] at hself
        exact hnodup.1 (hself ▸ hother)
    simp only [reserveAll, reserve, hname, ih hnodup.2 hrest, List.append_assoc,
      List.singleton_append]

end LocalName

/-- No name of a list is found repeated exactly if they all differ, from each other and from
those seen before. -/
theorem firstRepeated_eq_none_iff {seen names : List String} :
    firstRepeated seen names = none ↔ names.Nodup ∧ ∀ name ∈ names, name ∉ seen := by
  induction names generalizing seen with
  | nil => simp [firstRepeated]
  | cons name rest ih =>
    unfold firstRepeated
    rw [List.nodup_cons, List.forall_mem_cons]
    split
    · rename_i hseen
      simp [hseen]
    · rename_i hseen
      rw [ih]
      simp only [List.mem_append, List.mem_singleton, not_or]
      constructor
      · rintro ⟨hnodup, hrest⟩
        refine ⟨⟨fun hmem => (hrest name hmem).2 rfl, hnodup⟩, hseen, ?_⟩
        exact fun other hother => (hrest other hother).1
      · rintro ⟨⟨hname, hnodup⟩, _, hrest⟩
        refine ⟨hnodup, fun other hother => ⟨hrest other hother, ?_⟩⟩
        rintro rfl
        exact hname hother

/-- The parameters of a lambda differ exactly if none is found repeated. -/
theorem firstRepeated_nil_eq_none_iff {names : List String} :
    firstRepeated [] names = none ↔ names.Nodup := by
  simp [firstRepeated_eq_none_iff]

/-- Parameters that differ from each other keep their names. -/
theorem Func.parameters_declare {names : List String} (h : names.Nodup) :
    (Func.declare names).parameters = names := by
  simp [Func.declare, LocalName.reserveAll_of_nodup h]

/-- The names of the parameters of a function that exists. -/
theorem Module.map_fst_parameters {m : Module} {id : Nat} {f : Func}
    (hf : m.functions[id]? = some f) : (m.parameters id).map Prod.fst = f.parameters := by
  simp [parameters, hf, Function.comp_def]

/-- What the instructions of a function do, in the order in which they have been added. -/
def Func.actions (f : Func) : List Action :=
  f.instructions.map Instruction.action

/-- An instruction comes last. -/
theorem Func.actions_append (f : Func) (block : Nat) (wanted : Option String) (action : Action) :
    (f.append block wanted action).actions = f.actions ++ [action] :=
  List.map_append

/-- A function to which instructions can be added. -/
structure Func.Open (f : Func) : Prop extends f.Straight where
  not_terminator : ∀ instruction ∈ f.instructions, instruction.action.isTerminator = false

/-- A new function with an empty block is open. -/
theorem Func.open_declare (names : List String) :
    ((Func.declare names).appendBlock "entry").Open where
  blocks_eq := rfl
  not_terminator := nofun

/-- A function stays open when an instruction is added that does not end the block. -/
theorem Func.Open.append {f : Func} (h : f.Open) (wanted : Option String) {action : Action}
    (haction : action.isTerminator = false) : (f.append 0 wanted action).Open where
  toStraight := h.toStraight.append wanted action
  not_terminator := by
    intro instruction hmem
    rcases List.mem_append.mp hmem with hold | hnew
    · exact h.not_terminator instruction hold
    · rw [List.mem_singleton.mp hnew]
      exact haction

/-- The block of an open function is not terminated. -/
theorem Func.Open.isTerminated {f : Func} (h : f.Open) (block : Block) :
    f.isTerminated block = false := by
  unfold Func.isTerminated
  split
  · rfl
  · rename_i index _
    cases hinstruction : f.instructions[index]? with
    | none => rfl
    | some instruction =>
      exact h.not_terminator instruction (List.mem_of_getElem? hinstruction)

end LambdaArith
