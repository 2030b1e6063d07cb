import LambdaArith.Proofs.FloatText
import LambdaArith.Proofs.PlainNames
import LambdaArith.Proofs.Uses

/-!
# Lines are told apart

In each line of a module a name is followed by a character that cannot be part of it, and so is an
operand. So where names are plain, a line says which names, which operator and which operands it has
been made of, the operands by the way they are written.
-/

namespace LambdaArith

/-- The operator of an action, if it is not a return. -/
def Action.operator? : Action → Option Operator
  | compute op _ _ => some op
  | ret _ => none

/-- An action is told by its operator and its operands. -/
theorem Action.ext_operands {a b : Action} (hoperator : a.operator? = b.operator?)
    (hoperands : a.operands = b.operands) : a = b := by
  cases a <;> cases b <;> simp_all [operator?, operands]

namespace Operator

/-- There are only letters in a mnemonic. -/
theorem isAlphanum_of_mem_mnemonic (op : Operator) :
    ∀ c ∈ op.mnemonic.toList, c.isAlphanum = true := by
  cases op <;> exact List.all_eq_true.mp rfl

/-- Operators are told by their mnemonics. -/
theorem mnemonic_injective {op other : Operator} (h : op.mnemonic = other.mnemonic) :
    op = other := by
  revert h
  cases op <;> cases other <;> decide

end Operator

/-- The characters that operands are written with. -/
def isOperandChar (c : Char) : Bool :=
  isFloatChar c || c = '%' || c = '@' || c = '?'

/-- Letters and digits are among the characters that operands are written with. -/
theorem isOperandChar_of_isAlphanum {c : Char} (h : c.isAlphanum = true) :
    isOperandChar c = true := by
  simp [isOperandChar, isFloatChar, h]

/-- A text without line breaks. -/
def OneLine (text : String) : Prop :=
  '\n' ∉ text.toList

/-- Texts without line breaks are joined to such. -/
@[simp] theorem oneLine_append {text more : String} :
    OneLine (text ++ more) ↔ OneLine text ∧ OneLine more := by
  simp [OneLine]

/-- A text of characters of one sort has no line breaks if these are not of this sort. -/
theorem OneLine.of_forall {p : Char → Bool} {text : String} (hp : p '\n' = false)
    (h : ∀ c ∈ text.toList, p c = true) : OneLine text := by
  intro hmem
  have hbreak := h _ hmem
  rw [hp] at hbreak
  cases hbreak

/-- A plain name has no line breaks. -/
theorem IsPlain.oneLine {name : String} (h : IsPlain name) : OneLine name :=
  .of_forall rfl h.isAlphanum

namespace Module

variable {m n : Module} {id other : Nat}

/-- The names that can be asked for in a plain module are plain. -/
theorem Plain.valueName? (hm : m.Plain) {value : Value} {name : String}
    (h : m.valueName? value = some name) : IsPlain name := by
  cases value with
  | constant => cases h
  | parameter function index =>
    obtain ⟨f, hf, hname⟩ := Option.bind_eq_some_iff.mp h
    have hplain := hm.functions f (List.mem_of_getElem? hf)
    exact hplain.parameters name (List.mem_of_getElem? hname)
  | result function index =>
    obtain ⟨f, hf, h⟩ := Option.bind_eq_some_iff.mp h
    obtain ⟨instruction, hinstruction, hname⟩ := Option.bind_eq_some_iff.mp h
    have hplain := hm.functions f (List.mem_of_getElem? hf)
    cases hplain.instructions instruction (List.mem_of_getElem? hinstruction) with
    | compute op lhs rhs hgiven =>
      cases hname
      exact hgiven
    | ret value => cases hname
  | global place =>
    obtain ⟨g, hg, rfl⟩ := Option.map_eq_some_iff.mp h
    exact hm.globals g (List.mem_of_getElem? hg)
  | function place =>
    obtain ⟨f, hf, hname⟩ := Option.bind_eq_some_iff.mp h
    exact (hm.functions f (List.mem_of_getElem? hf)).name name hname

/-- What is written for a name has no other characters than operands. -/
theorem Plain.isOperandChar_of_mem_name (hm : m.Plain) {value : Value} {c : Char}
    (hc : c ∈ ((m.valueName? value).getD "?").toList) : isOperandChar c = true := by
  cases hname : m.valueName? value with
  | none =>
    rw [hname] at hc
    rw [List.mem_singleton.mp hc]
    rfl
  | some name =>
    rw [hname] at hc
    exact isOperandChar_of_isAlphanum ((hm.valueName? hname).isAlphanum c hc)

/-- A function is written with the characters of operands. -/
theorem Plain.isOperandChar_of_mem_functionLabel (hm : m.Plain) {c : Char}
    (hc : c ∈ (m.functionLabel id).toList) : isOperandChar c = true := by
  unfold functionLabel at hc
  split at hc
  · rename_i name hname
    rw [String.toList_append, List.mem_append] at hc
    rcases hc with hc | hc
    · rw [List.mem_singleton.mp hc]
      rfl
    · have hvalue : m.valueName? (.function id) = some name := hname
      exact isOperandChar_of_isAlphanum ((hm.valueName? hvalue).isAlphanum c hc)
  · rw [String.toList_append, List.mem_append] at hc
    rcases hc with hc | hc
    · rw [List.mem_singleton.mp hc]
      rfl
    · have hdigit := isDigit_of_mem_toString hc
      exact isOperandChar_of_isAlphanum (by simp [Char.isAlphanum, hdigit])

/-- Operands are written with the characters of operands. -/
theorem Plain.isOperandChar_of_mem (hm : m.Plain) {value : Value} :
    ∀ c ∈ (m.operandText value).toList, isOperandChar c = true := by
  intro c hc
  have hmarked : ∀ (mark : Char) {value : Value}, isOperandChar mark = true →
      c ∈ (String.singleton mark ++ (m.valueName? value).getD "?").toList →
      isOperandChar c = true := by
    intro mark value hmark hc
    rw [String.toList_append, List.mem_append] at hc
    rcases hc with hc | hc
    · rw [String.toList_singleton, List.mem_singleton] at hc
      rw [hc, hmark]
    · exact hm.isOperandChar_of_mem_name hc
  cases value with
  | constant x =>
    have hfloat := isFloatChar_of_mem_moduleFloat hc
    simp [isOperandChar, hfloat]
  | parameter function index => exact hmarked '%' rfl hc
  | result function index => exact hmarked '%' rfl hc
  | global place => exact hmarked '@' rfl hc
  | function place =>
    simp only [operandText] at hc
    split at hc
    · exact hm.isOperandChar_of_mem_functionLabel hc
    · exact hmarked '%' rfl hc

/-- The line of a global has its name and its value. -/
theorem toList_globalLine (g : Global) :
    (globalLine g).toList = '@' :: (g.name.toList ++
      ' ' :: ("= global double ".toList ++ (moduleFloat g.initializer).toList)) := by
  simp [globalLine, String.toList_append]

/-- Lines of globals are told apart. -/
theorem globalLine_inj {g h : Global} (hg : IsPlain g.name) (hh : IsPlain h.name)
    (heq : globalLine g = globalLine h) : g = h := by
  have hlist := congrArg String.toList heq
  rw [toList_globalLine, toList_globalLine] at hlist
  obtain ⟨hname, hrest⟩ := hg.append_inj hh (by simp) (by simp) (List.cons.inj hlist).2
  have hvalue := List.append_cancel_left (List.cons.inj hrest).2
  have hinitializer := moduleFloat_injective (String.toList_inj.mp hvalue)
  cases g
  cases h
  simp_all

/-- The line of a computation has the name of its result, its operator and its operands. -/
theorem toList_instructionLine_compute (m : Module) (name : String) (op : Operator)
    (lhs rhs : Value) :
    (m.instructionLine ⟨some name, .compute op lhs rhs⟩).toList =
      ' ' :: ' ' :: '%' :: (name.toList ++ ' ' :: '=' :: ' ' :: (op.mnemonic.toList ++
        ' ' :: ("double ".toList ++ ((m.operandText lhs).toList ++
          ',' :: ' ' :: (m.operandText rhs).toList)))) := by
  simp [instructionLine, String.toList_append]

/-- The line of a return has its operand. -/
theorem toList_instructionLine_ret (m : Module) (value : Value) :
    (m.instructionLine ⟨none, .ret value⟩).toList =
      ' ' :: ' ' :: 'r' :: ("et double ".toList ++ (m.operandText value).toList) := by
  simp [instructionLine, String.toList_append]

/-- Lines of instructions are told apart up to what is written alike. -/
theorem Plain.instructionLine_inj (hm : m.Plain) (hn : n.Plain) {i j : Instruction}
    (hi : i.Plain) (hj : j.Plain) (h : m.instructionLine i = n.instructionLine j) :
    i.name = j.name ∧ i.action.operator? = j.action.operator? ∧
      i.action.operands.map m.operandText = j.action.operands.map n.operandText := by
  have hlist := congrArg String.toList h
  -- The third character tells a computation from a return.
  cases hi with
  | @compute name op lhs rhs hname =>
    cases hj with
    | @compute name' op' lhs' rhs' hname' =>
      rw [toList_instructionLine_compute, toList_instructionLine_compute] at hlist
      simp only [List.cons.injEq, true_and] at hlist
      obtain ⟨rfl, hequation⟩ := hname.append_inj hname' (by simp) (by simp) hlist
      simp only [List.cons.injEq, true_and] at hequation
      obtain ⟨hmnemonic, hdouble⟩ := append_inj_of_stop op.isAlphanum_of_mem_mnemonic
        op'.isAlphanum_of_mem_mnemonic (by simp) (by simp) hequation
      have hoperands := List.append_cancel_left (List.cons.inj hdouble).2
      obtain ⟨hleft, hcomma⟩ := append_inj_of_stop hm.isOperandChar_of_mem hn.isOperandChar_of_mem
        (by simp [isOperandChar, isFloatChar]) (by simp [isOperandChar, isFloatChar]) hoperands
      simp only [List.cons.injEq, true_and] at hcomma
      have hoperator := Operator.mnemonic_injective (String.toList_inj.mp hmnemonic)
      have hlhs := String.toList_inj.mp hleft
      have hrhs := String.toList_inj.mp hcomma
      simp [Action.operator?, Action.operands, hoperator, hlhs, hrhs]
    | ret value =>
      rw [toList_instructionLine_compute, toList_instructionLine_ret] at hlist
      simp at hlist
  | ret value =>
    cases hj with
    | compute =>
      rw [toList_instructionLine_compute, toList_instructionLine_ret] at hlist
      simp at hlist
    | ret value' =>
      rw [toList_instructionLine_ret, toList_instructionLine_ret] at hlist
      simp only [List.cons.injEq, true_and] at hlist
      have hvalue := String.toList_inj.mp (List.append_cancel_left hlist)
      simp [Action.operator?, Action.operands, hvalue]

/-- The names of parameters as they are written between parentheses. -/
def parametersText (names : List String) : String :=
  ", ".intercalate (names.map fun name => "double %" ++ name)

/-- The first parameter is followed by the others, each behind a comma. -/
theorem toList_parametersText_cons (name : String) (names : List String) :
    (parametersText (name :: names)).toList = "double %".toList ++ (name.toList ++
      names.flatMap fun later => ',' :: (" double %".toList ++ later.toList)) := by
  induction names generalizing name with
  | nil => simp [parametersText, String.toList_append]
  | cons later names ih =>
    have hsplit : parametersText (name :: later :: names) =
        "double %" ++ name ++ ", " ++ parametersText (later :: names) := by
      simp only [parametersText, List.map_cons, String.intercalate_cons_cons]
    rw [hsplit, String.toList_append, ih]
    simp [String.toList_append]

/-- Later parameters in front of the closing parenthesis are told apart. -/
theorem laterParameters_inj {names others : List String} {rest behind : List Char}
    (hnames : ∀ name ∈ names, IsPlain name) (hothers : ∀ name ∈ others, IsPlain name)
    (h : (names.flatMap fun later => ',' :: (" double %".toList ++ later.toList)) ++ ')' :: rest =
      (others.flatMap fun later => ',' :: (" double %".toList ++ later.toList)) ++
        ')' :: behind) : names = others := by
  have hstop : ∀ (names : List String) (rest : List Char),
      ∀ c ∈ ((names.flatMap fun later => ',' :: (" double %".toList ++ later.toList)) ++
        ')' :: rest).head?, c.isAlphanum = false := by
    intro names rest c hc
    cases names with
    | nil =>
      cases hc
      rfl
    | cons later names =>
      cases hc
      rfl
  induction names generalizing others with
  | nil =>
    cases others with
    | nil => rfl
    | cons other others => simp at h
  | cons name names ih =>
    cases others with
    | nil => simp at h
    | cons other others =>
      rw [List.forall_mem_cons] at hnames hothers
      simp only [List.flatMap_cons, List.cons_append, List.append_assoc, List.cons.injEq,
        true_and] at h
      obtain ⟨rfl, hlater⟩ := hnames.1.append_inj hothers.1 (hstop _ _) (hstop _ _)
        (List.append_cancel_left h)
      rw [ih hnames.2 hothers.2 hlater]

/-- Parameters in front of the closing parenthesis are told apart. -/
theorem parametersText_inj {names others : List String} {rest behind : List Char}
    (hnames : ∀ name ∈ names, IsPlain name) (hothers : ∀ name ∈ others, IsPlain name)
    (h : (parametersText names).toList ++ ')' :: rest =
      (parametersText others).toList ++ ')' :: behind) : names = others := by
  -- Putting a comma and a space in front makes all parameters later ones.
  have hlater : ∀ (name : String) (names : List String) (rest : List Char),
      ',' :: ' ' :: ((parametersText (name :: names)).toList ++ ')' :: rest) =
        ((name :: names).flatMap fun later => ',' :: (" double %".toList ++ later.toList)) ++
          ')' :: rest := by
    intro name names rest
    simp [toList_parametersText_cons]
  have hempty : (parametersText []).toList = [] := by simp [parametersText]
  cases names with
  | nil =>
    cases others with
    | nil => rfl
    | cons other others => simp [hempty, toList_parametersText_cons] at h
  | cons name names =>
    cases others with
    | nil => simp [hempty, toList_parametersText_cons] at h
    | cons other others =>
      have hcomma := congrArg (fun text => ',' :: ' ' :: text) h
      simp only [hlater] at hcomma
      exact laterParameters_inj hnames hothers hcomma

/-- What is behind the parameters in the line of a defined function. -/
def signatureEnd (m : Module) : List Char :=
  (if m.target.isSome then " #0" else "").toList ++ [' ', '\x7b']

/-- The line of a defined function has its name and its parameters. -/
theorem toList_signatureLine {f : Func} (hblocks : f.blocks.isEmpty = false) :
    (m.signatureLine id f).toList = "define double ".toList ++ ((m.functionLabel id).toList ++
      '(' :: ((parametersText f.parameters).toList ++ ')' :: m.signatureEnd)) := by
  simp [signatureLine, hblocks, signatureEnd, parametersText, String.toList_append]

/-- Functions that are written alike have the same name, if any. -/
theorem Plain.functionLabel_inj (hm : m.Plain) (hn : n.Plain) {f g : Func}
    (hf : m.functions[id]? = some f) (hg : n.functions[other]? = some g)
    (h : m.functionLabel id = n.functionLabel other) : f.name = g.name := by
  have hdigits : ∀ {name : String} {count : Nat}, IsPlain name → name ≠ toString count := by
    rintro _ count ⟨c, rest, htext, hc, _⟩ rfl
    have hdigit := isDigit_of_mem_toString (htext ▸ List.mem_cons_self)
    rw [Token.isAlpha_of_isDigit hdigit] at hc
    cases hc
  have hfname := hm.functions f (List.mem_of_getElem? hf)
  have hgname := hn.functions g (List.mem_of_getElem? hg)
  -- A number in place of a name starts with a digit, which no plain name does.
  cases hfn : f.name with
  | none =>
    cases hgn : g.name with
    | none => rfl
    | some name =>
      simp only [functionLabel, hf, hg, hfn, hgn, Option.bind_some] at h
      exact absurd ((String.append_right_inj "@").mp h).symm (hdigits (hgname.name name hgn))
  | some name =>
    cases hgn : g.name with
    | none =>
      simp only [functionLabel, hf, hg, hfn, hgn, Option.bind_some] at h
      exact absurd ((String.append_right_inj "@").mp h) (hdigits (hfname.name name hfn))
    | some name' =>
      simp only [functionLabel, hf, hg, hfn, hgn, Option.bind_some] at h
      rw [(String.append_right_inj "@").mp h]

/-- Lines of defined functions are told apart. -/
theorem Plain.signatureLine_inj (hm : m.Plain) (hn : n.Plain) {f g : Func}
    (hf : m.functions[id]? = some f) (hg : n.functions[other]? = some g)
    (hfblocks : f.blocks.isEmpty = false) (hgblocks : g.blocks.isEmpty = false)
    (h : m.signatureLine id f = n.signatureLine other g) :
    f.name = g.name ∧ f.parameters = g.parameters := by
  have hlist := congrArg String.toList h
  rw [toList_signatureLine hfblocks, toList_signatureLine hgblocks] at hlist
  obtain ⟨hlabel, hparameters⟩ := append_inj_of_stop
    (fun _ => hm.isOperandChar_of_mem_functionLabel)
    (fun _ => hn.isOperandChar_of_mem_functionLabel)
    (by simp [isOperandChar, isFloatChar]) (by simp [isOperandChar, isFloatChar])
    (List.append_cancel_left hlist)
  refine ⟨hm.functionLabel_inj hn hf hg (String.toList_inj.mp hlabel), ?_⟩
  exact parametersText_inj (hm.functions f (List.mem_of_getElem? hf)).parameters
    (hn.functions g (List.mem_of_getElem? hg)).parameters (List.cons.inj hparameters).2

/-- The line of a global with a plain name has no line breaks. -/
theorem oneLine_globalLine {g : Global} (hg : IsPlain g.name) : OneLine (globalLine g) := by
  have hvalue : OneLine (moduleFloat g.initializer) :=
    .of_forall rfl fun _ => isFloatChar_of_mem_moduleFloat
  have hmarks : OneLine "@" ∧ OneLine " = global double " := by simp [OneLine]
  simp only [globalLine, oneLine_append]
  exact ⟨⟨⟨hmarks.1, hg.oneLine⟩, hmarks.2⟩, hvalue⟩

/-- The line of an instruction in a plain module has no line breaks. -/
theorem Plain.oneLine_instructionLine (hm : m.Plain) {instruction : Instruction}
    (h : instruction.Plain) : OneLine (m.instructionLine instruction) := by
  have hoperand : ∀ value, OneLine (m.operandText value) :=
    fun _ => .of_forall rfl hm.isOperandChar_of_mem
  cases h with
  | compute op lhs rhs hname =>
    have hmnemonic : OneLine op.mnemonic := .of_forall rfl op.isAlphanum_of_mem_mnemonic
    have hmarks : OneLine "  %" ∧ OneLine " = " ∧ OneLine " double " ∧ OneLine ", " := by
      simp [OneLine]
    simp [instructionLine, hmarks, hname.oneLine, hmnemonic, hoperand]
  | ret value =>
    have hmark : OneLine "  ret double " := by simp [OneLine]
    simp [instructionLine, hmark, hoperand]

/-- The names of parameters have no line breaks between them. -/
theorem oneLine_parametersText {names : List String} (hnames : ∀ name ∈ names, IsPlain name) :
    OneLine (parametersText names) := by
  have hmarks : OneLine "double %" ∧ OneLine ", " ∧ OneLine "" := by simp [OneLine]
  induction names with
  | nil => exact hmarks.2.2
  | cons name names ih =>
    rw [List.forall_mem_cons] at hnames
    have hrest := ih hnames.2
    cases names with
    | nil => simp [parametersText, hmarks, hnames.1.oneLine]
    | cons later names =>
      simp only [parametersText, List.map_cons, String.intercalate_cons_cons, oneLine_append] at *
      exact ⟨⟨⟨hmarks.1, hnames.1.oneLine⟩, hmarks.2.1⟩, hrest⟩

/-- The line of a defined function with plain parameters has no line breaks. -/
theorem Plain.oneLine_signatureLine (hm : m.Plain) {f : Func} (hf : f.Plain)
    (hblocks : f.blocks.isEmpty = false) : OneLine (m.signatureLine id f) := by
  have hlabel : OneLine (m.functionLabel id) :=
    .of_forall rfl fun _ => hm.isOperandChar_of_mem_functionLabel
  have hparameters := oneLine_parametersText hf.parameters
  have hmarks : OneLine "define" ∧ OneLine " double " ∧ OneLine "(" ∧ OneLine ")" ∧
      OneLine " #0" ∧ OneLine "" ∧ OneLine " \x7b" := by
    simp [OneLine]
  rw [parametersText] at hparameters
  simp only [signatureLine, hblocks, Bool.false_eq_true, if_false, oneLine_append, hlabel,
    hparameters, hmarks, and_true, true_and]
  split
  · exact hmarks.2.2.2.2.1
  · exact hmarks.2.2.2.2.2.1

end Module

end LambdaArith
