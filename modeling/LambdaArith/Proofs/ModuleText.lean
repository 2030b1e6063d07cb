import LambdaArith.Proofs.Operands

/-!
# Modules are told by their text

Between the header and the attributes of a module, the lines of globals start with a mark of their
own, and each function ends with a line that no other line is like. So the text says which lines the
globals have and which lines each function has. Those are told apart, so two sessions that have been
opened under the same name, for the same target, have the same text only with the same globals and
functions.
-/

namespace LambdaArith

namespace Module

variable {m n : Module} {id : Nat} {f g : Func}

/-- The lines of a function from its signature to its last instruction. -/
def innerLines (m : Module) (id : Nat) (f : Func) : List String :=
  m.signatureLine id f :: "entry:" :: f.instructions.map m.instructionLine

/-- The line behind the instructions of a function. -/
def closingLine : String := "\x7d"

/-- The lines of the globals and the functions. -/
def bodyLines (m : Module) : List String :=
  (if m.globals.isEmpty then [] else "" :: m.globals.map globalLine) ++
    m.functions.zipIdx.flatMap fun (f, id) => m.functionLines id f

/-- The body stands between the header and the attributes. -/
theorem lines_eq (m : Module) : m.lines = m.headerLines ++ (m.bodyLines ++ m.attributeLines) := by
  simp [lines, bodyLines]

/-- The text of a module is its lines, with a line break behind each. -/
theorem toList_text (m : Module) : m.text.toList = closed '\n' (m.lines.map String.toList) := by
  simp [text, closed, String.toList_join, List.flatMap_map]

/-- The lines of a straight function are an empty one, the inner ones and the closing one. -/
theorem functionLines_eq (m : Module) (id : Nat) (hf : f.Straight) :
    m.functionLines id f = "" :: (m.innerLines id f ++ [closingLine]) := by
  have hinstructions := hf.orderedInstructions_eq
  simp only [Func.orderedInstructions, hf.blocks_eq, List.flatMap_singleton] at hinstructions
  simp [functionLines, innerLines, closingLine, hf.blocks_eq, hinstructions]

/-- Every inner line of a defined plain function starts with a character that is neither the mark of
a global nor a closing brace. -/
theorem exists_innerLine_eq_cons (hf : f.Plain) (hblocks : f.blocks.isEmpty = false)
    {line : String} (hline : line ∈ m.innerLines id f) :
    ∃ c rest, line.toList = c :: rest ∧ c ≠ '@' ∧ c ≠ '\x7d' := by
  simp only [innerLines, List.mem_cons, List.mem_map] at hline
  rcases hline with rfl | rfl | ⟨instruction, hinstruction, rfl⟩
  · exact ⟨'d', _, toList_signatureLine hblocks, by decide, by decide⟩
  · exact ⟨'e', ['n', 't', 'r', 'y', ':'], rfl, by decide, by decide⟩
  · cases hf.instructions instruction hinstruction with
    | compute op lhs rhs => exact ⟨' ', _, toList_instructionLine_compute .., by decide, by decide⟩
    | ret value => exact ⟨' ', _, toList_instructionLine_ret .., by decide, by decide⟩

/-- The lines that start with the mark of globals. -/
def isGlobalLine (line : String) : Bool :=
  line.toList.head?.any fun c => c = '@'

/-- The lines that start with anything else. -/
def isFunctionLine (line : String) : Bool :=
  line.toList.head?.any fun c => c ≠ '@'

/-- The inner lines of the functions. -/
def functionPieces (m : Module) : List (List String) :=
  m.functions.zipIdx.map fun (f, id) => m.innerLines id f

/-- Complete functions are defined. -/
theorem Complete.isEmpty_blocks (hm : m.Complete) (hf : m.functions[id]? = some f) :
    f.blocks.isEmpty = false := by
  rw [(hm id f hf).blocks_eq]
  rfl

/-- The empty line in front of the globals is left out wherever empty lines are. -/
theorem filter_globalLines (p : String → Bool) (hp : p "" = false) (globals : List Global) :
    (if globals.isEmpty then [] else "" :: globals.map globalLine).filter p =
      (globals.map globalLine).filter p := by
  cases globals with
  | nil => rfl
  | cons g globals => simp [hp]

namespace Legible

/-- The lines of a function are, but for the empty one, no lines of globals. -/
theorem filter_functionLines (hm : m.Legible) (hf : m.functions[id]? = some f) :
    (m.functionLines id f).filter isGlobalLine = [] ∧
      (m.functionLines id f).filter isFunctionLine = m.innerLines id f ++ [closingLine] := by
  have hplain := hm.plain.functions f (List.mem_of_getElem? hf)
  have hblocks := hm.complete.isEmpty_blocks hf
  have hlines : ∀ line ∈ m.innerLines id f ++ [closingLine],
      isGlobalLine line = false ∧ isFunctionLine line = true := by
    intro line hline
    rcases List.mem_append.mp hline with hline | hline
    · obtain ⟨c, rest, htext, hc, _⟩ := exists_innerLine_eq_cons hplain hblocks hline
      simp [isGlobalLine, isFunctionLine, htext, hc]
    · rw [List.mem_singleton.mp hline]
      exact ⟨rfl, rfl⟩
  have hglobal : isGlobalLine "" = false := rfl
  have hfunction : isFunctionLine "" = false := rfl
  rw [functionLines_eq m id (hm.complete id f hf).toStraight, List.filter_cons, List.filter_cons,
    hglobal, hfunction]
  refine ⟨List.filter_eq_nil_iff.mpr ?_, List.filter_eq_self.mpr fun line h => (hlines line h).2⟩
  intro line hline
  simp [(hlines line hline).1]

/-- The lines of globals start with the mark of globals. -/
theorem globalLine_kind (g : Global) :
    isGlobalLine (globalLine g) = true ∧ isFunctionLine (globalLine g) = false := by
  simp [isGlobalLine, isFunctionLine, toList_globalLine]

/-- The lines with the mark of globals are those of the globals. -/
theorem filter_isGlobalLine (hm : m.Legible) :
    m.bodyLines.filter isGlobalLine = m.globals.map globalLine := by
  have hglobals : (m.globals.map globalLine).filter isGlobalLine = m.globals.map globalLine := by
    refine List.filter_eq_self.mpr fun line hline => ?_
    obtain ⟨g, _, rfl⟩ := List.mem_map.mp hline
    exact (globalLine_kind g).1
  have hfunctions : (m.functions.zipIdx.flatMap fun (f, id) => m.functionLines id f).filter
      isGlobalLine = [] := by
    rw [List.filter_flatMap, List.flatMap_eq_nil_iff]
    rintro ⟨f, id⟩ hf
    exact (hm.filter_functionLines (List.mem_zipIdx_iff_getElem?.mp hf)).1
  rw [bodyLines, List.filter_append, filter_globalLines _ rfl, hglobals, hfunctions,
    List.append_nil]

/-- The other lines are those of the functions, each function closed by a line of its own. -/
theorem filter_isFunctionLine (hm : m.Legible) :
    m.bodyLines.filter isFunctionLine = closed closingLine m.functionPieces := by
  have hglobals : (m.globals.map globalLine).filter isFunctionLine = [] := by
    refine List.filter_eq_nil_iff.mpr fun line hline => ?_
    obtain ⟨g, _, rfl⟩ := List.mem_map.mp hline
    simp [(globalLine_kind g).2]
  have hfunctions : (m.functions.zipIdx.flatMap fun (f, id) => m.functionLines id f).filter
      isFunctionLine = closed closingLine m.functionPieces := by
    rw [List.filter_flatMap, closed, functionPieces, List.flatMap_map]
    refine List.flatMap_congr ?_
    rintro ⟨f, id⟩ hf
    exact (hm.filter_functionLines (List.mem_zipIdx_iff_getElem?.mp hf)).2
  rw [bodyLines, List.filter_append, filter_globalLines _ rfl, hglobals, hfunctions,
    List.nil_append]

/-- No inner line is like a closing one. -/
theorem closingLine_not_mem (hm : m.Legible) :
    ∀ piece ∈ m.functionPieces, closingLine ∉ piece := by
  intro piece hpiece hmem
  obtain ⟨⟨f, id⟩, hf, rfl⟩ := List.mem_map.mp hpiece
  have hid := List.mem_zipIdx_iff_getElem?.mp hf
  have hplain := hm.plain.functions f (List.mem_of_getElem? hid)
  obtain ⟨c, rest, htext, _, hc⟩ :=
    exists_innerLine_eq_cons hplain (hm.complete.isEmpty_blocks hid) hmem
  have hclosing : closingLine.toList = ['\x7d'] := rfl
  rw [hclosing] at htext
  exact hc (List.cons.inj htext).1.symm

/-- No line of a function has a line break. -/
theorem oneLine_functionLines (hm : m.Legible) (hf : m.functions[id]? = some f) {line : String}
    (hline : line ∈ m.functionLines id f) : OneLine line := by
  have hplain := hm.plain.functions f (List.mem_of_getElem? hf)
  have hmarks : OneLine "" ∧ OneLine "entry:" ∧ OneLine closingLine := by
    simp [OneLine, closingLine]
  simp only [functionLines_eq m id (hm.complete id f hf).toStraight, innerLines, List.cons_append,
    List.mem_cons, List.mem_append, List.mem_map, List.not_mem_nil, or_false] at hline
  rcases hline with rfl | rfl | rfl | ⟨instruction, hinstruction, rfl⟩ | rfl
  · exact hmarks.1
  · exact hm.plain.oneLine_signatureLine hplain (hm.complete.isEmpty_blocks hf)
  · exact hmarks.2.1
  · exact hm.plain.oneLine_instructionLine (hplain.instructions instruction hinstruction)
  · exact hmarks.2.2

/-- No line of the body has a line break. -/
theorem oneLine_bodyLines (hm : m.Legible) {line : String} (hline : line ∈ m.bodyLines) :
    OneLine line := by
  rcases List.mem_append.mp hline with hline | hline
  · split at hline
    · cases hline
    · rcases List.mem_cons.mp hline with rfl | hline
      · simp [OneLine]
      · obtain ⟨g, hg, rfl⟩ := List.mem_map.mp hline
        exact oneLine_globalLine (hm.plain.globals g hg)
  · obtain ⟨⟨f, id⟩, hf, hline⟩ := List.mem_flatMap.mp hline
    exact hm.oneLine_functionLines (List.mem_zipIdx_iff_getElem?.mp hf) hline

/-- There is a closing line exactly if there are functions. -/
theorem closingLine_mem_iff (hm : m.Legible) :
    closingLine ∈ m.bodyLines ↔ m.functions ≠ [] := by
  have hkind : isFunctionLine closingLine = true := rfl
  have hfilter : closingLine ∈ m.bodyLines ↔ closingLine ∈ closed closingLine m.functionPieces := by
    rw [← hm.filter_isFunctionLine, List.mem_filter, hkind]
    simp
  rw [hfilter]
  cases hfunctions : m.functions with
  | nil => simp [functionPieces, hfunctions, closed]
  | cons f functions => simp [functionPieces, hfunctions, closed, List.zipIdx_cons]

/-- What is behind the body depends on the target, and on whether there are functions. -/
theorem attributeLines_eq (hm : m.Legible) (hn : n.Legible) (htarget : m.target = n.target)
    (hfunctions : m.functions = [] ↔ n.functions = []) : m.attributeLines = n.attributeLines := by
  have hall : ∀ {m : Module}, m.Legible →
      (m.functions.all fun f => f.blocks.isEmpty) = decide (m.functions = []) := by
    intro m hm
    cases hcase : m.functions with
    | nil => simp
    | cons f functions =>
      have hf : m.functions[0]? = some f := by rw [hcase]; rfl
      simp [hm.complete.isEmpty_blocks hf]
  simp only [attributeLines, htarget, hall hm, hall hn, hfunctions]

/-- Modules with the same header and the same text have the same lines behind the header. -/
theorem closed_bodyLines_eq (hname : m.name = n.name) (htarget : m.target = n.target)
    (h : m.text = n.text) :
    closed '\n' (m.bodyLines.map String.toList) ++
        closed '\n' (m.attributeLines.map String.toList) =
      closed '\n' (n.bodyLines.map String.toList) ++
        closed '\n' (n.attributeLines.map String.toList) := by
  have hheader : m.headerLines = n.headerLines := by
    simp only [headerLines, hname, htarget]
  have hlist := congrArg String.toList h
  simp only [toList_text, lines_eq, List.map_append, closed_append, hheader] at hlist
  exact List.append_cancel_left hlist

/-- The lines of the body as texts without line breaks. -/
theorem newline_not_mem (hm : m.Legible) :
    ∀ piece ∈ m.bodyLines.map String.toList, '\n' ∉ piece := by
  intro piece hpiece
  obtain ⟨line, hline, rfl⟩ := List.mem_map.mp hpiece
  exact hm.oneLine_bodyLines hline

/-- A module without functions does not have the text of a module with functions. -/
theorem functions_eq_nil (hm : m.Legible) (hn : n.Legible) (hname : m.name = n.name)
    (htarget : m.target = n.target) (h : m.text = n.text) (hempty : n.functions = []) :
    m.functions = [] := by
  -- Without attributes behind it, the body of `n` starts with all of the body of `m`.
  have hattributes : n.attributeLines = [] := by
    unfold attributeLines
    split <;> simp [hempty]
  have hclosed := closed_bodyLines_eq hname htarget h
  rw [hattributes, List.map_nil] at hclosed
  obtain ⟨more, hmore, _⟩ := exists_of_closed_append hm.newline_not_mem hn.newline_not_mem
    (hclosed.trans (List.append_nil _))
  by_contra hfunctions
  have hclosing : closingLine.toList ∈ n.bodyLines.map String.toList := by
    rw [hmore]
    exact List.mem_append_left _ (List.mem_map_of_mem (hm.closingLine_mem_iff.mpr hfunctions))
  obtain ⟨line, hline, htext⟩ := List.mem_map.mp hclosing
  rw [String.toList_inj.mp htext] at hline
  exact hn.closingLine_mem_iff.mp hline hempty

/-- Modules with the same header and the same text have the same body. -/
theorem bodyLines_eq (hm : m.Legible) (hn : n.Legible) (hname : m.name = n.name)
    (htarget : m.target = n.target) (h : m.text = n.text) : m.bodyLines = n.bodyLines := by
  have hfunctions : m.functions = [] ↔ n.functions = [] :=
    ⟨hn.functions_eq_nil hm hname.symm htarget.symm h.symm, hm.functions_eq_nil hn hname htarget h⟩
  have hclosed := closed_bodyLines_eq hname htarget h
  rw [hm.attributeLines_eq hn htarget hfunctions] at hclosed
  have hlines := closed_injective hm.newline_not_mem hn.newline_not_mem
    (List.append_cancel_right hclosed)
  exact List.map_injective_iff.mpr (fun _ _ heq => String.toList_inj.mp heq) hlines

/-- Modules with the same body have the same globals. -/
theorem globals_eq (hm : m.Legible) (hn : n.Legible) (h : m.bodyLines = n.bodyLines) :
    m.globals = n.globals := by
  have hlines := hm.filter_isGlobalLine
  rw [h, hn.filter_isGlobalLine] at hlines
  refine eq_of_map_eq (fun g hg g' hg' heq => ?_) hlines.symm
  exact globalLine_inj (hm.plain.globals g hg) (hn.plain.globals g' hg') heq

/-- Functions at the same place of modules with the same globals are the same if their inner lines
are. -/
theorem function_eq (hm : m.Legible) (hn : n.Legible) (hglobals : m.globals = n.globals)
    (hf : m.functions[id]? = some f) (hg : n.functions[id]? = some g)
    (h : m.innerLines id f = n.innerLines id g) : f = g := by
  have hfplain := hm.plain.functions f (List.mem_of_getElem? hf)
  have hgplain := hn.plain.functions g (List.mem_of_getElem? hg)
  simp only [innerLines, List.cons.injEq, true_and] at h
  obtain ⟨hsignature, hlines⟩ := h
  obtain ⟨hname, hparameters⟩ := hm.plain.signatureLine_inj hn.plain hf hg
    (hm.complete.isEmpty_blocks hf) (hn.complete.isEmpty_blocks hg) hsignature
  -- Operands are written by name, so all names have to agree before operands can be compared.
  have hresults : f.instructions.map Instruction.name = g.instructions.map Instruction.name :=
    map_eq_of_map_eq (fun i hi j hj heq => (hm.plain.instructionLine_inj hn.plain
      (hfplain.instructions i hi) (hgplain.instructions j hj) heq).1) hlines
  have hsame : SameNames m n id f g := ⟨hf, hg, hglobals, hparameters, hresults⟩
  have hinstructions := hsame.instructions_eq hm hn hlines
  have hblocks := (hm.complete id f hf).blocks_eq
  have hlocals := (hm.structured f (List.mem_of_getElem? hf)).localNames_eq
  have hblocks' := (hn.complete id g hg).blocks_eq
  have hlocals' := (hn.structured g (List.mem_of_getElem? hg)).localNames_eq
  cases f
  cases g
  simp_all

/-- Modules with the same body have the same functions. -/
theorem functions_eq (hm : m.Legible) (hn : n.Legible) (h : m.bodyLines = n.bodyLines) :
    m.functions = n.functions := by
  have hclosed := hm.filter_isFunctionLine
  rw [h, hn.filter_isFunctionLine] at hclosed
  have hpieces := closed_injective hn.closingLine_not_mem hm.closingLine_not_mem hclosed
  refine List.ext_getElem? fun id => ?_
  have hpiece : (m.functions[id]?).map (m.innerLines id) =
      (n.functions[id]?).map (n.innerLines id) := by
    have hid := congrArg (fun pieces => pieces[id]?) hpieces
    simpa [functionPieces, Function.comp_def] using hid.symm
  cases hf : m.functions[id]? with
  | none =>
    cases hg : n.functions[id]? with
    | none => rfl
    | some g => simp [hf, hg] at hpiece
  | some f =>
    cases hg : n.functions[id]? with
    | none => simp [hf, hg] at hpiece
    | some g =>
      rw [hf, hg, Option.map_some, Option.map_some, Option.some.injEq] at hpiece
      rw [hm.function_eq hn (hm.globals_eq hn h) hf hg hpiece]

end Legible

/-- The module of a session that has been opened under a name, after sources have been compiled in
it. The target may be set at any time. -/
inductive OfSession (name : String) : Module → Prop
  | opened : OfSession name (empty name)
  | setTarget {m : Module} (target : Target) :
      OfSession name m → OfSession name (m.setTarget target)
  | compile {m : Module} (source : String) :
      OfSession name m → OfSession name (m.compile source).module

namespace OfSession

variable {name : String}

/-- The modules of sessions are legible. -/
theorem legible (h : OfSession name m) : m.Legible := by
  induction h with
  | opened =>
    exact ⟨consistent_empty name, structured_empty name, fun _ _ => by simp [empty], .empty name⟩
  | setTarget target _ ih =>
    exact ⟨ih.consistent.setTarget target, structured_invariant.setTarget target ih.structured,
      ih.complete.of_functions_eq rfl (Nat.le_refl _), ih.plain.of_same rfl rfl⟩
  | compile source _ ih =>
    exact ⟨ih.consistent.answers [.compile source],
      structured_invariant.answer ih.structured (.compile source),
      ih.complete.answers ih.consistent [.compile source], ih.plain.compile ih.consistent source⟩

/-- Compiling leaves the name of a module. -/
theorem name_eq (h : OfSession name m) : m.name = name := by
  induction h with
  | opened => rfl
  | setTarget target _ ih => exact ih
  | @compile m source hm ih =>
    rcases hm.legible.consistent.answer (.compile source) with
      ⟨_, _, hframe, _⟩ | ⟨_, _, hlike, _⟩
    · exact hframe.name_eq.trans ih
    · exact hlike.name_eq.trans ih

end OfSession

/-- Whatever has been compiled in two sessions that have been opened under the same name: if their
modules have the same target and the same text, they have the same globals and the same functions,
with the same names, instructions and operands. All doubles that are not numbers count as one. -/
theorem text_determines_content {name : String} (hm : OfSession name m) (hn : OfSession name n)
    (htarget : m.target = n.target) (h : m.text = n.text) :
    m.globals = n.globals ∧ m.functions = n.functions := by
  have hname : m.name = n.name := hm.name_eq.trans hn.name_eq.symm
  have hbody := hm.legible.bodyLines_eq hn.legible hname htarget h
  exact ⟨hm.legible.globals_eq hn.legible hbody, hm.legible.functions_eq hn.legible hbody⟩

/-- A global and a function that uses it, compiled from two sources for a target, and from one
source for a target that is set afterwards. -/
theorem text_determines_content_product :
    let target : Target := ⟨"x86_64-unknown-linux-gnu", "generic", ""⟩
    let m := ((((empty "m").setTarget target).compile "(define x 2.5)").module.compile
      "(lambda (y) (* x y))").module
    let n := ((empty "m").compile "(define x 2.50) (lambda (y) (* x y))").module.setTarget target
    m.target = n.target ∧ m.text = n.text ∧ m.globals = n.globals ∧ m.functions = n.functions := by
  intro target m n
  have hm : OfSession "m" m := .compile _ (.compile _ (.setTarget target .opened))
  have hn : OfSession "m" n := .setTarget target (.compile _ .opened)
  have htarget : m.target = n.target := by decide +kernel
  have htext : m.text = n.text := by decide +kernel
  exact ⟨htarget, htext, text_determines_content hm hn htarget htext⟩

end Module

end LambdaArith
