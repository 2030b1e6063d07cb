import LambdaArith.Module.Text
import LambdaArith.Lowering
import LambdaArith.Proofs.Edits

/-!
# Modules that cannot be told apart

Names stay known after what had them has been dropped, so a module is not quite the same when
it has been taken back to an earlier state. Two modules are alike if they differ in no more
than the names that are known. Nothing that can be asked of a module tells them apart, and
whatever is done to both has the same result and leaves them alike.
-/

namespace LambdaArith

namespace Module

/-- The modules differ at most in the names that are known without standing for anything. -/
structure Alike (m n : Module) : Prop where
  name_eq : m.name = n.name
  target_eq : m.target = n.target
  globals_eq : m.globals = n.globals
  functions_eq : m.functions = n.functions
  lookup?_eq : ∀ name, m.lookup? name = n.lookup? name

namespace Alike

/-- Every module is like itself. -/
theorem refl (m : Module) : m.Alike m :=
  ⟨rfl, rfl, rfl, rfl, fun _ => rfl⟩

/-- Likeness goes both ways. -/
theorem symm {m n : Module} (h : m.Alike n) : n.Alike m :=
  ⟨h.name_eq.symm, h.target_eq.symm, h.globals_eq.symm, h.functions_eq.symm,
    fun name => (h.lookup?_eq name).symm⟩

/-- Likeness can be chained. -/
theorem trans {m n k : Module} (h : m.Alike n) (h' : n.Alike k) : m.Alike k :=
  ⟨h.name_eq.trans h'.name_eq, h.target_eq.trans h'.target_eq, h.globals_eq.trans h'.globals_eq,
    h.functions_eq.trans h'.functions_eq,
    fun name => (h.lookup?_eq name).trans (h'.lookup?_eq name)⟩

variable {m n : Module}

/-- Alike modules name their values alike. -/
theorem valueName?_eq (h : m.Alike n) (value : Value) :
    m.valueName? value = n.valueName? value := by
  cases value <;> simp only [valueName?, h.globals_eq, h.functions_eq]

/-- Alike modules have the same initializers. -/
theorem initializer?_eq (h : m.Alike n) (id : Nat) : m.initializer? id = n.initializer? id := by
  rw [initializer?, initializer?, h.globals_eq]

/-- Alike modules have the same functions among the values. -/
theorem isFunction_eq (h : m.Alike n) (value : Value) :
    m.isFunction value = n.isFunction value := by
  cases value <;> simp only [isFunction, h.functions_eq]

/-- Alike modules are written alike. -/
theorem functionLabel_eq (h : m.Alike n) (id : Nat) : m.functionLabel id = n.functionLabel id := by
  simp only [functionLabel, h.functions_eq]

/-- Alike modules write operands alike. -/
theorem operandText_eq (h : m.Alike n) (value : Value) :
    m.operandText value = n.operandText value := by
  cases value <;>
    simp only [operandText, h.valueName?_eq, h.functions_eq, h.functionLabel_eq]

/-- Alike modules write functions alike. -/
theorem functionLines_eq (h : m.Alike n) (id : Nat) (f : Func) :
    m.functionLines id f = n.functionLines id f := by
  have hline : m.instructionLine = n.instructionLine := by
    funext instruction
    simp only [instructionLine, h.operandText_eq]
  simp only [functionLines, signatureLine, h.functionLabel_eq, h.target_eq, hline]

/-- Alike modules have the same text. -/
theorem text_eq (h : m.Alike n) : m.text = n.text := by
  have hfunctions : m.functionLines = n.functionLines :=
    funext fun id => funext fun f => h.functionLines_eq id f
  simp only [text, lines, headerLines, attributeLines, h.name_eq, h.target_eq, h.globals_eq,
    h.functions_eq, hfunctions]

/-- In alike modules a name has the same global. -/
theorem global?_eq (h : m.Alike n) (name : String) : m.global? name = n.global? name := by
  simp only [global?, h.lookup?_eq]

/-- In alike modules a name has the same function. -/
theorem function?_eq (h : m.Alike n) (name : String) : m.function? name = n.function? name := by
  simp only [function?, h.lookup?_eq]

/-- Alike modules have the same parameters. -/
theorem parameters_eq (h : m.Alike n) (function : Nat) :
    m.parameters function = n.parameters function := by
  simp only [parameters, h.functions_eq]

/-- Alike modules have the same instructions. -/
theorem instructions_eq (h : m.Alike n) (function : Nat) :
    m.instructions function = n.instructions function := by
  simp only [instructions, h.functions_eq]

/-- In alike modules identifiers stand for the same. -/
theorem resolve_eq (h : m.Alike n) (function : Option Nat) (name : String) :
    m.resolve function name = n.resolve function name := by
  simp only [resolve, h.parameters_eq, h.global?_eq]

/-- Alike modules stand at the same place. -/
theorem checkpoint_eq (h : m.Alike n) : m.checkpoint = n.checkpoint := by
  rw [checkpoint, checkpoint, h.globals_eq, h.functions_eq]

end Alike

/-- Two answers of an operation on a module: the same refusal, or the same value and alike
modules. -/
def AlikeAnswers {α : Type} :
    Except BackendError (α × Module) → Except BackendError (α × Module) → Prop
  | .ok (a, m), .ok (b, n) => a = b ∧ m.Alike n
  | .error e, .error f => e = f
  | _, _ => False

namespace Alike

variable {m n : Module}

/-- Two tables in which the same is found are still so after a name has been given. -/
private theorem find?_insert_congr {s t : SymbolTable} (h : ∀ name, s.find? name = t.find? name)
    (name : String) (symbol : Symbol) (other : String) :
    (s.insert name symbol).find? other = (t.insert name symbol).find? other := by
  apply Option.ext
  intro owner
  rw [SymbolTable.find?_insert_eq_some_iff, SymbolTable.find?_insert_eq_some_iff, h]

/-- Two tables in which the same is found are still so after being filtered. -/
private theorem find?_filter_congr {s t : SymbolTable} (h : ∀ name, s.find? name = t.find? name)
    (keep : String × Symbol → Bool) (other : String) :
    (s.filter keep).find? other = (t.filter keep).find? other := by
  apply Option.ext
  intro owner
  rw [SymbolTable.find?_filter_eq_some_iff, SymbolTable.find?_filter_eq_some_iff, h]

/-- Alike modules are alike after a change to their functions. -/
theorem with_functions (h : m.Alike n) (functions : List Func) :
    Alike { m with functions := functions } { n with functions := functions } :=
  ⟨h.name_eq, h.target_eq, h.globals_eq, rfl, h.lookup?_eq⟩

/-- Adding a global to alike modules. -/
theorem addGlobal (h : m.Alike n) (name : String) (initializer : Value) :
    AlikeAnswers (m.addGlobal name initializer) (n.addGlobal name initializer) := by
  have hinitial : m.initialValue name initializer = n.initialValue name initializer := by
    cases initializer <;> simp only [initialValue, h.initializer?_eq]
  unfold Module.addGlobal
  rw [hinitial, h.lookup?_eq, h.globals_eq]
  split
  · rfl
  · split
    · rfl
    · refine ⟨rfl, h.name_eq, h.target_eq, rfl, h.functions_eq, ?_⟩
      exact find?_insert_congr h.lookup?_eq name _

/-- Adding a function to alike modules. -/
theorem addFunction (h : m.Alike n) (parameters : List String) :
    AlikeAnswers (.ok (m.addFunction parameters)) (.ok (n.addFunction parameters)) := by
  unfold Module.addFunction
  rw [h.functions_eq]
  exact ⟨rfl, h.with_functions _⟩

/-- Adding a block to alike modules. -/
theorem appendBlock (h : m.Alike n) (function : Nat) (label : String) :
    AlikeAnswers (m.appendBlock function label) (n.appendBlock function label) := by
  unfold Module.appendBlock
  rw [h.functions_eq]
  split
  · rfl
  · exact ⟨rfl, h.with_functions _⟩

/-- Adding an instruction to alike modules. -/
theorem append (h : m.Alike n) (point : InsertPoint) (wanted : Option String) (action : Action) :
    AlikeAnswers (m.append point wanted action) (n.append point wanted action) := by
  unfold Module.append
  rw [h.functions_eq]
  split
  · rfl
  · split
    · rfl
    · split
      · rfl
      · exact ⟨rfl, h.with_functions _⟩

/-- Renaming a symbol of alike modules. -/
theorem rename (h : m.Alike n) (symbol : Symbol) (name : String) :
    (m.rename symbol name).Alike (n.rename symbol name) := by
  have hlookup : ∀ other, (m.rename symbol name).lookup? other =
      (n.rename symbol name).lookup? other := by
    intro other
    apply Option.ext
    intro owner
    rw [lookup?_rename_eq_some_iff, lookup?_rename_eq_some_iff, h.lookup?_eq, h.valueName?_eq]
  cases symbol with
  | global id => exact ⟨h.name_eq, h.target_eq, by simp only [Module.rename, h.globals_eq],
      h.functions_eq, hlookup⟩
  | function id => exact ⟨h.name_eq, h.target_eq, h.globals_eq,
      by simp only [Module.rename, h.functions_eq], hlookup⟩

/-- Naming a value of alike modules. -/
theorem setName (h : m.Alike n) (value : Value) (name : String) :
    AlikeAnswers ((m.setName value name).map fun m => ((), m))
      ((n.setName value name).map fun n => ((), n)) := by
  have hsymbol : m.symbolOf value = n.symbolOf value := by
    cases value <;> simp only [symbolOf, h.globals_eq, h.functions_eq]
  unfold Module.setName
  rw [hsymbol, h.lookup?_eq]
  split
  · rfl
  · split
    · split
      · exact ⟨rfl, h⟩
      · rfl
    · exact ⟨rfl, h.rename _ name⟩

/-- Taking alike modules back to a checkpoint. -/
theorem rollback (h : m.Alike n) (checkpoint : Checkpoint) :
    (m.rollback checkpoint).Alike (n.rollback checkpoint) := by
  refine ⟨h.name_eq, h.target_eq, ?_, ?_, ?_⟩
  · simp only [Module.rollback, h.globals_eq]
  · simp only [Module.rollback, h.functions_eq]
  · exact find?_filter_congr h.lookup?_eq _

end Alike

end Module

end LambdaArith
