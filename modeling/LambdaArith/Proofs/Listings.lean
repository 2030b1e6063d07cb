import LambdaArith.Proofs.SingleAssignment
import LambdaArith.Proofs.Tracking

/-!
# The text of functions without their numbers

In the text of a module a function without a name is written with a number, which depends on the
functions in front of it. Everything else in the text of a function is about the function alone: it
is written in the same way at another place, and in any module that has been extended since.
-/

namespace LambdaArith

section Places

variable {r : Renumbering} {f : Func} {id globals index : Nat} {v : Value}

/-- No operand is a function. -/
theorem Value.Available.isNumeric_eq (h : v.Available f id globals index) : v.isNumeric = true := by
  cases v with
  | function => exact h.elim
  | _ => rfl

/-- An operand in an old function stays as it is. -/
theorem Value.Available.renumber_eq (h : v.Available f id globals index)
    (hid : id < r.old.functions) (hglobals : globals ≤ r.old.globals) : v.renumber r = v := by
  have howner : r.function id = id := shift_of_lt hid
  cases v with
  | constant => rfl
  | parameter owner place => rw [Value.renumber, h.1, howner]
  | result owner place => rw [Value.renumber, h.1, howner]
  | global place => exact congrArg Value.global (shift_of_lt (Nat.lt_of_lt_of_le h hglobals))
  | function => exact h.elim

/-- No operand of a scoped function is a function. -/
theorem Func.Scoped.isNumeric_eq (h : f.Scoped id globals) {i : Instruction}
    (hi : i ∈ f.instructions) (hv : v ∈ i.action.operands) : v.isNumeric = true := by
  obtain ⟨index, hindex⟩ := List.mem_iff_getElem?.mp hi
  exact (h index i hindex v hv).isNumeric_eq

/-- An old function stays as it is. -/
theorem Func.Scoped.renumber_eq (h : f.Scoped id globals) (hid : id < r.old.functions)
    (hglobals : globals ≤ r.old.globals) : f.renumber r = f := by
  have hsame : ∀ i ∈ f.instructions, i.renumber r = i := by
    intro i hi
    obtain ⟨index, hindex⟩ := List.mem_iff_getElem?.mp hi
    have hoperand : ∀ v ∈ i.action.operands, v.renumber r = v := fun v hv =>
      (h index i hindex v hv).renumber_eq hid hglobals
    obtain ⟨name, action⟩ := i
    cases action with
    | compute op lhs rhs =>
      rw [Action.operands, List.forall_mem_cons, List.forall_mem_singleton] at hoperand
      simp only [Instruction.renumber, Action.renumber, hoperand.1, hoperand.2]
    | ret value =>
      rw [Action.operands, List.forall_mem_singleton] at hoperand
      simp only [Instruction.renumber, Action.renumber, hoperand]
  rw [Func.renumber, List.map_congr_left hsame, List.map_id']

end Places

namespace Module

/-- The lines of a function with a label. -/
def functionLinesAs (m : Module) (label : String) (f : Func) : List String :=
  let parameters := ", ".intercalate (f.parameters.map fun name => "double %" ++ name)
  let signature := " double " ++ label ++ "(" ++ parameters ++ ")"
  let head :=
    if f.blocks.isEmpty then "declare" ++ signature
    else "define" ++ signature ++ (if m.target.isSome then " #0" else "") ++ " \x7b"
  let body := f.blocks.flatMap fun block =>
    (block.label ++ ":") :: (f.blockInstructions block).map m.instructionLine
  "" :: head :: (if f.blocks.isEmpty then [] else body ++ ["\x7d"])

/-- The lines of a function in the text of its module are those with its label. -/
theorem functionLines_eq_as (m : Module) (id : Nat) (f : Func) :
    m.functionLines id f = m.functionLinesAs (m.functionLabel id) f :=
  rfl

/-- The name of a function and its lines in the text of its module, without its number if it has
no name. -/
def listing (m : Module) (id : Nat) (f : Func) : Option String × List String :=
  (f.name, if f.name.isSome then m.functionLines id f else m.functionLinesAs "@" f)

/-- The names and lines of all functions, without the numbers. -/
def listings (m : Module) : List (Option String × List String) :=
  m.functions.zipIdx.map fun (f, id) => m.listing id f

/-- The name of a function and its lines, wherever it is. -/
def unnumbered (m : Module) (f : Func) : Option String × List String :=
  (f.name, m.functionLinesAs ("@" ++ f.name.getD "") f)

variable {base middle m n : Module} {f : Func} {place globals : Nat}

/-- What is listed of a function does not depend on where it is. -/
theorem listing_eq (hf : m.functions[place]? = some f) : m.listing place f = m.unnumbered f := by
  unfold listing unnumbered
  cases hname : f.name with
  | none => rfl
  | some name =>
    have hlabel : m.functionLabel place = "@" ++ name := by
      simp only [functionLabel, hf, Option.bind_some, hname]
    simp only [Option.isSome_some, if_true, functionLines_eq_as, hlabel, Option.getD_some]

/-- The functions are listed one by one. -/
theorem listings_eq (m : Module) : m.listings = m.functions.map m.unnumbered := by
  have hentries : m.listings = m.functions.zipIdx.map fun entry => m.unnumbered entry.1 :=
    List.map_congr_left fun entry hentry => listing_eq (List.mem_zipIdx_iff_getElem?.mp hentry)
  have hfunctions : m.functions.zipIdx.map Prod.fst = m.functions := List.zipIdx_map_fst 0 _
  conv_rhs => rw [← hfunctions, List.map_map]
  exact hentries

namespace Tracks

/-- A module and one that tracks it are for the same target. -/
theorem target_eq (h : base.Tracks middle m n) : n.target = m.target :=
  h.right_extends.frame.target_eq.trans
    (h.middle_extends.frame.target_eq.trans h.left_extends.frame.target_eq.symm)

/-- An operand is written in the same way at its new place. -/
theorem operandText_renumber (h : base.Tracks middle m n) {v : Value} (hv : v.isNumeric = true) :
    n.operandText (v.renumber (base.renumbering middle)) = m.operandText v := by
  have hname := h.valueName?_renumber v
  cases v with
  | function => cases hv
  | constant => rfl
  | _ =>
    simp only [Value.renumber, operandText] at hname ⊢
    rw [hname]

/-- An instruction is written in the same way at its new place. -/
theorem instructionLine_renumber (h : base.Tracks middle m n) (i : Instruction)
    (hi : ∀ v ∈ i.action.operands, v.isNumeric = true) :
    n.instructionLine (i.renumber (base.renumbering middle)) = m.instructionLine i := by
  obtain ⟨name, action⟩ := i
  cases action with
  | compute op lhs rhs =>
    rw [Action.operands, List.forall_mem_cons, List.forall_mem_singleton] at hi
    simp only [instructionLine, Instruction.renumber, Action.renumber,
      h.operandText_renumber hi.1, h.operandText_renumber hi.2]
  | ret value =>
    rw [Action.operands, List.forall_mem_singleton] at hi
    simp only [instructionLine, Instruction.renumber, Action.renumber, h.operandText_renumber hi]

/-- A function is written in the same way at its new place, apart from its label. -/
theorem functionLinesAs_renumber (h : base.Tracks middle m n) (hf : f.Scoped place globals)
    (label : String) :
    n.functionLinesAs label (f.renumber (base.renumbering middle)) = m.functionLinesAs label f := by
  have hlines : ∀ block : Block,
      ((f.renumber (base.renumbering middle)).blockInstructions block).map n.instructionLine =
        (f.blockInstructions block).map m.instructionLine := by
    intro block
    have hmoved : (f.renumber (base.renumbering middle)).blockInstructions block =
        (f.blockInstructions block).map (Instruction.renumber (base.renumbering middle)) := by
      simp only [Func.blockInstructions, Func.renumber, List.getElem?_map, List.map_filterMap]
    rw [hmoved, List.map_map]
    refine List.map_congr_left fun i hi => h.instructionLine_renumber i fun v hv => ?_
    obtain ⟨index, _, hindex⟩ := List.mem_filterMap.mp hi
    exact hf.isNumeric_eq (List.mem_of_getElem? hindex) hv
  have hblocks : (f.renumber (base.renumbering middle)).blocks = f.blocks := rfl
  simp only [functionLinesAs, hblocks, hlines, h.target_eq]
  rfl

/-- A function is written in the same way at its new place, apart from its number. -/
theorem unnumbered_renumber (h : base.Tracks middle m n) (hf : f.Scoped place globals) :
    n.unnumbered (f.renumber (base.renumbering middle)) = m.unnumbered f := by
  have hname : (f.renumber (base.renumbering middle)).name = f.name := rfl
  simp only [unnumbered, hname, h.functionLinesAs_renumber hf]

end Tracks

/-- An old function is written in the same way in an extension, apart from its label. -/
theorem Extends.functionLinesAs_eq (h : base.Extends m) (hbase : base.Consistent)
    (hcomplete : base.Complete) (hf : f ∈ base.functions) (label : String) :
    m.functionLinesAs label f = base.functionLinesAs label f := by
  obtain ⟨id, hid⟩ := List.mem_iff_getElem?.mp hf
  have hlt := (List.getElem?_eq_some_iff.mp hid).1
  have hscoped := (hcomplete id f hid).in_scope
  have hsame : f.renumber (base.renumbering m) = f := hscoped.renumber_eq hlt (Nat.le_refl _)
  have hlines := (Tracks.start hbase h).functionLinesAs_renumber hscoped label
  rwa [hsame] at hlines

/-- An old function is written in the same way in an extension, apart from its number. -/
theorem Extends.unnumbered_eq (h : base.Extends m) (hbase : base.Consistent)
    (hcomplete : base.Complete) (hf : f ∈ base.functions) : m.unnumbered f = base.unnumbered f := by
  rw [unnumbered, unnumbered, h.functionLinesAs_eq hbase hcomplete hf]

/-- What is listed for a module comes first in what is listed for an extension of it. -/
theorem Extends.listings_prefix (h : base.Extends m) (hbase : base.Consistent)
    (hcomplete : base.Complete) : base.listings <+: m.listings := by
  obtain ⟨added, hadded⟩ := h.frame.functions_prefix
  refine ⟨added.map m.unnumbered, ?_⟩
  have hold : base.functions.map m.unnumbered = base.functions.map base.unnumbered :=
    List.map_congr_left fun f hf => h.unnumbered_eq hbase hcomplete hf
  rw [listings_eq, listings_eq, ← hadded, List.map_append, hold]

/-- What is new in a module is listed behind what is listed for the extension. -/
theorem Tracks.listings_eq_rebase (h : base.Tracks middle m n) (hmiddle : middle.Complete)
    (hm : m.Complete) :
    n.listings = rebase id base.listings.length middle.listings m.listings := by
  have hold : middle.functions.map n.unnumbered = middle.functions.map middle.unnumbered :=
    List.map_congr_left fun f hf =>
      h.right_extends.unnumbered_eq h.middle_extends.consistent hmiddle hf
  have hnew : (m.functions.drop base.functions.length).map
      (n.unnumbered ∘ Func.renumber (base.renumbering middle)) =
      (m.functions.drop base.functions.length).map m.unnumbered := by
    refine List.map_congr_left fun f hf => ?_
    obtain ⟨id, hid⟩ := List.mem_iff_getElem?.mp (List.mem_of_mem_drop hf)
    exact h.unnumbered_renumber (hm id f hid).in_scope
  rw [listings_eq, listings_eq, listings_eq, listings_eq, h.functions_eq, rebase, rebase,
    List.map_append, List.map_map, hold, hnew, List.length_map, List.map_id, List.map_drop]

end Module

end LambdaArith
