import LambdaArith.Proofs.Accepted
import LambdaArith.Proofs.Names

/-!
# The scope of a module

A scope describes a module if it has the names that are found in it. Each change of the module has
the change of the scope that keeps this so.
-/

namespace LambdaArith

namespace Module

/-- The names of the globals and functions of a module. -/
def scope (m : Module) : Scope :=
  ⟨m.globals.map Global.name, m.functions.filterMap Func.name⟩

/-- A scope has the names that are found in a module. -/
structure Describes (m : Module) (scope : Scope) : Prop where
  globals_iff : ∀ name, name ∈ scope.globals ↔ ∃ id, m.lookup? name = some (.global id)
  functions_iff : ∀ name, name ∈ scope.functions ↔ ∃ id, m.lookup? name = some (.function id)

/-- In a consistent module, exactly the names of globals and functions are found. -/
theorem Consistent.describes {m : Module} (hm : m.Consistent) : m.Describes m.scope where
  globals_iff := by
    intro name
    rw [scope, List.mem_map]
    constructor
    · rintro ⟨g, hg, rfl⟩
      obtain ⟨id, hid⟩ := List.mem_iff_getElem?.mp hg
      exact ⟨id, (hm _ (.global id)).mpr (Option.map_eq_some_iff.mpr ⟨g, hid, rfl⟩)⟩
    · rintro ⟨id, hlookup⟩
      obtain ⟨g, hg, hname⟩ := Option.map_eq_some_iff.mp ((hm _ (.global id)).mp hlookup)
      exact ⟨g, List.mem_of_getElem? hg, hname⟩
  functions_iff := by
    intro name
    rw [scope, List.mem_filterMap]
    constructor
    · rintro ⟨f, hf, hname⟩
      obtain ⟨id, hid⟩ := List.mem_iff_getElem?.mp hf
      exact ⟨id, (hm _ (.function id)).mpr (Option.bind_eq_some_iff.mpr ⟨f, hid, hname⟩)⟩
    · rintro ⟨id, hlookup⟩
      obtain ⟨f, hf, hname⟩ := Option.bind_eq_some_iff.mp ((hm _ (.function id)).mp hlookup)
      exact ⟨f, List.mem_of_getElem? hf, hname⟩

variable {m after : Module} {scope : Scope}

/-- Exactly the names that are not in the scope are free. -/
theorem Describes.lookup?_eq_none_iff (h : m.Describes scope) {name : String} :
    m.lookup? name = none ↔ name ∉ scope.globals ∧ name ∉ scope.functions := by
  rw [h.globals_iff, h.functions_iff]
  cases m.lookup? name with
  | none => simp
  | some symbol => cases symbol <;> simp

/-- Where a name is free or that of one function, nothing but this function is found. -/
theorem Describes.eq_of_lookup? (h : m.Describes scope) (hm : m.Consistent) {name : String}
    {id : Nat} (hglobals : name ∉ scope.globals)
    (hfunctions : name ∈ scope.functions → m.valueName? (.function id) = some name)
    {symbol : Symbol} (hsymbol : m.lookup? name = some symbol) : symbol = .function id := by
  cases symbol with
  | global id' => exact absurd ((h.globals_iff name).mpr ⟨id', hsymbol⟩) hglobals
  | function id' =>
    have hname := hfunctions ((h.functions_iff name).mpr ⟨id', hsymbol⟩)
    have hown := (hm name (.function id)).mpr hname
    exact Option.some.inj (hsymbol.symm.trans hown)

/-- A scope describes all modules with the same names. -/
theorem Describes.of_symbols_eq (h : m.Describes scope) (hsymbols : after.symbols = m.symbols) :
    after.Describes scope where
  globals_iff := by
    intro name
    rw [lookup?, hsymbols]
    exact h.globals_iff name
  functions_iff := by
    intro name
    rw [lookup?, hsymbols]
    exact h.functions_iff name

/-- A new global puts its name into the scope. -/
theorem Describes.addGlobal (h : m.Describes scope) {name : String} {initializer value : Value}
    (hok : m.addGlobal name initializer = .ok (value, after)) :
    after.Describes { scope with globals := name :: scope.globals } := by
  obtain ⟨x, _, hfree, _, rfl⟩ := addGlobal_eq_ok hok
  have hother := h.lookup?_eq_none_iff.mp hfree
  constructor
  · intro other
    simp only [lookup?, SymbolTable.find?_insert_eq_some_iff, List.mem_cons, h.globals_iff other]
    constructor
    · rintro (rfl | ⟨id, hid⟩)
      · exact ⟨_, .inl ⟨rfl, rfl⟩⟩
      · by_cases heq : other = name
        · exact ⟨_, .inl ⟨heq, rfl⟩⟩
        · exact ⟨id, .inr ⟨hid, heq⟩⟩
    · rintro ⟨id, ⟨heq, _⟩ | ⟨hid, _⟩⟩
      · exact .inl heq
      · exact .inr ⟨id, hid⟩
  · intro other
    simp only [lookup?, SymbolTable.find?_insert_eq_some_iff, h.functions_iff other,
      reduceCtorEq, and_false, false_or]
    constructor
    · rintro ⟨id, hid⟩
      refine ⟨id, hid, ?_⟩
      rintro rfl
      exact hother.2 ((h.functions_iff other).mpr ⟨id, hid⟩)
    · rintro ⟨id, hid, _⟩
      exact ⟨id, hid⟩

/-- The name that a function has already stays in the scope. -/
theorem Describes.own_name (h : m.Describes scope) {name : String} {id : Nat}
    (hhas : m.lookup? name = some (.function id)) :
    m.Describes { scope with
      functions := name :: scope.functions.filter fun other => some name ≠ some other } := by
  refine ⟨h.globals_iff, fun other => ?_⟩
  simp only [List.mem_cons, List.mem_filter, h.functions_iff other, ne_eq, Option.some.injEq,
    decide_not, Bool.not_eq_true', decide_eq_false_iff_not]
  constructor
  · rintro (rfl | ⟨hother, _⟩)
    · exact ⟨id, hhas⟩
    · exact hother
  · intro hother
    by_cases heq : name = other
    · exact .inl heq.symm
    · exact .inr ⟨hother, heq⟩

/-- A free name comes into the scope in the place of the one that the function has had. -/
theorem Describes.rename (h : m.Describes scope) (hm : m.Consistent) {name : String} {id : Nat}
    (hfree : m.lookup? name = none) :
    (m.rename (.function id) name).Describes { scope with
      functions := name :: scope.functions.filter fun other =>
        m.valueName? (.function id) ≠ some other } := by
  constructor
  · intro other
    rw [h.globals_iff other]
    refine exists_congr fun id' => ?_
    have hne : Symbol.global id' ≠ .function id := by
      intro heq
      cases heq
    exact (hm.lookup?_rename_of_ne hfree hne).symm
  · intro other
    simp only [lookup?_rename_eq_some_iff, List.mem_cons, List.mem_filter,
      h.functions_iff other, Symbol.value, decide_eq_true_eq, Symbol.function.injEq]
    constructor
    · rintro (rfl | ⟨⟨id', hid'⟩, hne⟩)
      · exact ⟨id, .inl ⟨rfl, rfl⟩⟩
      · refine ⟨id', .inr ⟨hid', hne, ?_⟩⟩
        rintro rfl
        rw [hfree] at hid'
        cases hid'
    · rintro ⟨id', ⟨rfl, _⟩ | ⟨hid', hne, _⟩⟩
      · exact .inl rfl
      · exact .inr ⟨⟨id', hid'⟩, hne⟩

/-- Naming a function puts the name into the scope, and takes out the name that the function has
had. -/
theorem Describes.setName (h : m.Describes scope) (hm : m.Consistent) {name : String} {id : Nat}
    (hok : m.setName (.function id) name = .ok after) :
    after.Describes { scope with
      functions := name :: scope.functions.filter fun other =>
        m.valueName? (.function id) ≠ some other } := by
  obtain ⟨symbol, hsymbol, _, hcases⟩ := setName_eq_ok hok
  cases symbol with
  | global id' => cases hsymbol
  | function id' =>
    cases hsymbol
    rcases hcases with ⟨hhas, heq⟩ | ⟨hfree, heq⟩
    · have hname : m.valueName? (.function id) = some name := hm.valueName?_eq_some hhas
      rw [heq, hname]
      exact h.own_name hhas
    · rw [heq]
      exact h.rename hm hfree

end Module

end LambdaArith
