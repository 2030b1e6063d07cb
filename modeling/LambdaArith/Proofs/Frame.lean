import LambdaArith.Proofs.Names

/-!
# What lowering leaves alone

While an expression is lowered, the module only grows: globals and functions are added behind
those that are there, names are given to what has been added, and instructions are added at
the insertion point. `Module.Frame` says this of a module and an earlier state of it, and each
change that lowering makes keeps it true.
-/

namespace LambdaArith

/-- A function with instructions added at the end of one of its blocks, if a block is given,
and otherwise the same function. -/
inductive Func.Grown (block : Option Nat) (f : Func) : Func → Prop
  | refl : Grown block f f
  | append {g : Func} {k : Nat} (wanted : Option String) (action : Action) :
      Grown block f g → block = some k → Grown block f (g.append k wanted action)

/-- A function keeps its name when instructions are added. -/
theorem Func.Grown.name_eq {block : Option Nat} {f g : Func} (h : f.Grown block g) :
    g.name = f.name := by
  induction h with
  | refl => rfl
  | append _ _ _ _ ih => exact ih

/-- Where no block is given, nothing is added. -/
theorem Func.Grown.eq_of_none {f g : Func} (h : f.Grown none g) : g = f := by
  cases h with
  | refl => rfl
  | append _ _ _ hblock => cases hblock

/-- The block of a function where instructions can be added, if that is where the insertion
point is. -/
def InsertPoint.blockIn (point : Option InsertPoint) (function : Nat) : Option Nat :=
  match point with
  | none => none
  | some p => if p.function = function then some p.block else none

namespace Module

/-- What there is in a module is still there in a later state of it, apart from instructions
added at an insertion point. -/
structure Frame (base : Module) (point : Option InsertPoint) (m : Module) : Prop where
  name_eq : m.name = base.name
  target_eq : m.target = base.target
  /-- Globals keep their places, names and initializers. -/
  globals_prefix : base.globals <+: m.globals
  functions_le : base.functions.length ≤ m.functions.length
  /-- Functions keep their places and are not changed but by growing at the insertion point. -/
  function_grown : ∀ id (f : Func), base.functions[id]? = some f →
    ∃ g, m.functions[id]? = some g ∧ f.Grown (InsertPoint.blockIn point id) g
  /-- What has been there has no other name than it has had. -/
  lookup?_iff : ∀ name symbol, base.checkpoint.covers symbol = true →
    (m.lookup? name = some symbol ↔ base.lookup? name = some symbol)

/-- Nothing has happened yet. -/
theorem Frame.refl (base : Module) (point : Option InsertPoint) : base.Frame point base where
  name_eq := rfl
  target_eq := rfl
  globals_prefix := List.prefix_rfl
  functions_le := Nat.le_refl _
  function_grown := fun _ f hf => ⟨f, hf, .refl⟩
  lookup?_iff := fun _ _ _ => Iff.rfl

variable {base m : Module} {point : Option InsertPoint}

/-- A function behind those of a module is not there at its checkpoint. -/
theorem not_covers_function {id : Nat} (hid : base.functions.length ≤ id) :
    base.checkpoint.covers (.function id) = false :=
  decide_eq_false (Nat.not_lt.mpr hid)

/-- What is the value of a function behind those of a module is not there at its checkpoint. -/
theorem not_covers_of_value_eq {id : Nat} (hid : base.functions.length ≤ id) {symbol : Symbol}
    (h : symbol.value = .function id) : base.checkpoint.covers symbol = false := by
  cases symbol with
  | global place => cases h
  | function place =>
    cases h
    exact not_covers_function hid

/-- Adding a global leaves the frame alone. -/
theorem Frame.addGlobal (h : base.Frame point m) {after : Module} {name : String}
    {initializer value : Value} (hok : m.addGlobal name initializer = .ok (value, after)) :
    base.Frame point after := by
  obtain ⟨x, _, hfree, _, rfl⟩ := addGlobal_eq_ok hok
  refine ⟨h.name_eq, h.target_eq, ?_, h.functions_le, h.function_grown, ?_⟩
  · exact h.globals_prefix.trans (List.prefix_append _ _)
  · intro other symbol hcovers
    rw [← h.lookup?_iff other symbol hcovers, lookup?, SymbolTable.find?_insert_eq_some_iff]
    constructor
    · rintro (⟨_, rfl⟩ | ⟨hold, _⟩)
      · have hlt : m.globals.length < base.globals.length := of_decide_eq_true hcovers
        exact absurd h.globals_prefix.length_le (Nat.not_le.mpr hlt)
      · exact hold
    · intro hold
      refine .inr ⟨hold, ?_⟩
      rintro rfl
      rw [hfree] at hold
      cases hold

/-- Adding a function leaves the frame alone. -/
theorem Frame.addFunction (h : base.Frame point m) (parameters : List String) :
    base.Frame point (m.addFunction parameters).2 where
  name_eq := h.name_eq
  target_eq := h.target_eq
  globals_prefix := h.globals_prefix
  functions_le := by
    have hle := h.functions_le
    simp only [Module.addFunction, List.length_append]
    omega
  function_grown := fun id f hf => by
    obtain ⟨g, hg, hgrown⟩ := h.function_grown id f hf
    have hlt := (List.getElem?_eq_some_iff.mp hg).1
    refine ⟨g, ?_, hgrown⟩
    simp only [Module.addFunction]
    rw [List.getElem?_append_left hlt, hg]
  lookup?_iff := h.lookup?_iff

/-- Changing a function that is not in the frame leaves the frame alone. -/
theorem Frame.set_of_le (h : base.Frame point m) {id : Nat} (hid : base.functions.length ≤ id)
    (g : Func) : base.Frame point { m with functions := m.functions.set id g } where
  name_eq := h.name_eq
  target_eq := h.target_eq
  globals_prefix := h.globals_prefix
  functions_le := by simpa using h.functions_le
  function_grown := fun other f hf => by
    have hlt := (List.getElem?_eq_some_iff.mp hf).1
    obtain ⟨g', hg', hgrown⟩ := h.function_grown other f hf
    exact ⟨g', by rw [List.getElem?_set_ne (by omega), hg'], hgrown⟩
  lookup?_iff := h.lookup?_iff

/-- Adding a block to a function that is not in the frame leaves the frame alone. -/
theorem Frame.appendBlock (h : base.Frame point m) {function : Nat}
    (hfunction : base.functions.length ≤ function) {after : Module} {label : String}
    {entry : InsertPoint} (hok : m.appendBlock function label = .ok (entry, after)) :
    base.Frame point after := by
  obtain ⟨f, _, _, rfl⟩ := appendBlock_eq_ok hok
  exact h.set_of_le hfunction _

/-- Whether an instruction may be added at a place: at the insertion point of the frame or in
a function that is not in it. -/
def Frame.Allows (base : Module) (point : Option InsertPoint) (p : InsertPoint) : Prop :=
  point = some p ∨ base.functions.length ≤ p.function

/-- Adding an instruction at such a place leaves the rest of the frame alone. -/
theorem Frame.append (h : base.Frame point m) {p : InsertPoint}
    (hp : Frame.Allows base point p) {after : Module} {wanted : Option String} {action : Action}
    {value : Value} (hok : m.append p wanted action = .ok (value, after)) :
    base.Frame point after := by
  obtain ⟨f, _, hf, _, _, _, rfl⟩ := append_eq_ok hok
  rcases hp with rfl | hnew
  · refine ⟨h.name_eq, h.target_eq, h.globals_prefix, ?_, ?_, h.lookup?_iff⟩
    · simpa using h.functions_le
    · intro id f' hf'
      obtain ⟨g, hg, hgrown⟩ := h.function_grown id f' hf'
      by_cases hid : p.function = id
      · subst hid
        have hlt := (List.getElem?_eq_some_iff.mp hf).1
        rw [hf] at hg
        cases hg
        refine ⟨_, List.getElem?_set_self hlt, hgrown.append wanted action ?_⟩
        simp only [InsertPoint.blockIn, if_true]
      · exact ⟨g, by rw [List.getElem?_set_ne hid, hg], hgrown⟩
  · exact h.set_of_le hnew _

/-- Renaming a symbol that is not in the frame leaves the frame alone. -/
theorem Frame.rename (h : base.Frame point m) (hm : m.Consistent) {symbol : Symbol}
    (hnew : base.checkpoint.covers symbol = false) {name : String}
    (hfree : m.lookup? name = none) : base.Frame point (m.rename symbol name) := by
  have hlookup : ∀ other owner, base.checkpoint.covers owner = true →
      ((m.rename symbol name).lookup? other = some owner ↔ base.lookup? other = some owner) := by
    intro other owner hcovers
    have howner : owner ≠ symbol := by
      rintro rfl
      rw [hnew] at hcovers
      cases hcovers
    rw [← h.lookup?_iff other owner hcovers]
    exact hm.lookup?_rename_of_ne hfree howner
  cases symbol with
  | global id =>
    have hid : base.globals.length ≤ id := Nat.le_of_not_lt (of_decide_eq_false hnew)
    refine ⟨h.name_eq, h.target_eq, ?_, h.functions_le, h.function_grown, hlookup⟩
    rw [List.prefix_iff_getElem?]
    intro place hplace
    have hold := (List.prefix_iff_getElem?.mp h.globals_prefix) place hplace
    simp only [Module.rename]
    rw [List.getElem?_modify_ne _ _ (by omega), hold]
  | function id =>
    have hid : base.functions.length ≤ id := Nat.le_of_not_lt (of_decide_eq_false hnew)
    refine ⟨h.name_eq, h.target_eq, h.globals_prefix, ?_, ?_, hlookup⟩
    · simpa [Module.rename] using h.functions_le
    · intro place f hf
      have hlt := (List.getElem?_eq_some_iff.mp hf).1
      obtain ⟨g, hg, hgrown⟩ := h.function_grown place f hf
      refine ⟨g, ?_, hgrown⟩
      simp only [Module.rename]
      rw [List.getElem?_modify_ne _ _ (by omega), hg]

/-- Giving a name to what is not in the frame leaves the frame alone. -/
theorem Frame.setName (h : base.Frame point m) (hm : m.Consistent) {value : Value}
    (hnew : ∀ symbol : Symbol, symbol.value = value → base.checkpoint.covers symbol = false)
    {after : Module} {name : String} (hok : m.setName value name = .ok after) :
    base.Frame point after := by
  obtain ⟨symbol, hvalue, _, ⟨_, rfl⟩ | ⟨hfree, rfl⟩⟩ := setName_eq_ok hok
  · exact h
  · exact h.rename hm (hnew symbol hvalue) hfree

end Module

end LambdaArith
