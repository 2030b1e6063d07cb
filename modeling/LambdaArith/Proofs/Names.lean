import LambdaArith.Proofs.Edits

/-!
# Names and what has them

A module keeps the name of each global and each function twice: with the entity, and in the
table of symbols. The two agree in every module that its operations can make, so that looking
up a name finds exactly what has it.
-/

namespace LambdaArith

namespace Module

/-- The table of symbols says of each name exactly what has it. -/
def Consistent (m : Module) : Prop :=
  ∀ name symbol, m.lookup? name = some symbol ↔ m.valueName? symbol.value = some name

/-- A name is looked up to what has it. -/
theorem Consistent.lookup?_eq_some {m : Module} (hm : m.Consistent) {name : String}
    {symbol : Symbol} (h : m.valueName? symbol.value = some name) :
    m.lookup? name = some symbol :=
  (hm name symbol).mpr h

/-- What is found under a name has it. -/
theorem Consistent.valueName?_eq_some {m : Module} (hm : m.Consistent) {name : String}
    {symbol : Symbol} (h : m.lookup? name = some symbol) :
    m.valueName? symbol.value = some name :=
  (hm name symbol).mp h

/-- A symbol with a name exists, so it is older than the next checkpoint. -/
theorem covers_of_valueName? {m : Module} {symbol : Symbol} {name : String}
    (h : m.valueName? symbol.value = some name) : m.checkpoint.covers symbol = true := by
  cases symbol with
  | global id =>
    obtain ⟨g, hg, _⟩ := Option.map_eq_some_iff.mp h
    exact decide_eq_true (List.getElem?_eq_some_iff.mp hg).1
  | function id =>
    obtain ⟨f, hf, _⟩ := Option.bind_eq_some_iff.mp h
    exact decide_eq_true (List.getElem?_eq_some_iff.mp hf).1

/-- In a consistent module every name belongs to something that exists. -/
theorem Consistent.covers_of_lookup? {m : Module} (hm : m.Consistent) {name : String}
    {symbol : Symbol} (h : m.lookup? name = some symbol) :
    m.checkpoint.covers symbol = true :=
  covers_of_valueName? (hm.valueName?_eq_some h)

/-- In a consistent module a name that is found for a global belongs to one. -/
theorem Consistent.lt_of_lookup? {m : Module} (hm : m.Consistent) {name : String} {id : Nat}
    (h : m.lookup? name = some (.global id)) : id < m.globals.length :=
  of_decide_eq_true (hm.covers_of_lookup? h)

/-- In a consistent module a name that is found for a global belongs to one that is
initialized. -/
theorem Consistent.exists_initializer {m : Module} (hm : m.Consistent) {name : String} {id : Nat}
    (h : m.lookup? name = some (.global id)) : ∃ x, m.initializer? id = some x := by
  have hget := List.getElem?_eq_getElem (hm.lt_of_lookup? h)
  exact ⟨_, congrArg (Option.map Global.initializer) hget⟩

/-- A module without anything in it is consistent. -/
theorem consistent_empty (name : String) : (empty name).Consistent := by
  intro other symbol
  cases symbol with
  | global id => simp [lookup?, empty, valueName?, Symbol.value, SymbolTable.find?_empty]
  | function id => simp [lookup?, empty, valueName?, Symbol.value, SymbolTable.find?_empty]

/-- A symbol that exists has the name that it has been given. -/
theorem valueName?_rename_self {m : Module} {symbol : Symbol} (name : String)
    (h : m.checkpoint.covers symbol = true) :
    (m.rename symbol name).valueName? symbol.value = some name := by
  cases symbol with
  | global id =>
    have hid : id < m.globals.length := of_decide_eq_true h
    simp [rename, valueName?, Symbol.value, hid]
  | function id =>
    have hid : id < m.functions.length := of_decide_eq_true h
    simp [rename, valueName?, Symbol.value, hid]

/-- Renaming a symbol leaves the other names alone. -/
theorem valueName?_rename_of_ne {m : Module} {symbol other : Symbol} (name : String)
    (h : other ≠ symbol) :
    (m.rename symbol name).valueName? other.value = m.valueName? other.value := by
  cases symbol with
  | global id =>
    cases other with
    | global id' =>
      have hne : id ≠ id' := fun heq => h (by rw [heq])
      simp only [rename, valueName?, Symbol.value]
      rw [List.getElem?_modify_ne _ _ hne]
    | function id' => rfl
  | function id =>
    cases other with
    | global id' => rfl
    | function id' =>
      have hne : id ≠ id' := fun heq => h (by rw [heq])
      simp only [rename, valueName?, Symbol.value]
      rw [List.getElem?_modify_ne _ _ hne]

/-- A module stays consistent if a symbol gets a free name, by being renamed or by being new. -/
theorem Consistent.of_named {m after : Module} (hm : m.Consistent) (symbol : Symbol)
    {name : String} (hfree : m.lookup? name = none)
    (hlookup : ∀ other owner, after.lookup? other = some owner ↔
      (other = name ∧ owner = symbol) ∨
        (m.lookup? other = some owner ∧ m.valueName? symbol.value ≠ some other ∧ other ≠ name))
    (hself : after.valueName? symbol.value = some name)
    (hothers : ∀ owner, owner ≠ symbol →
      after.valueName? owner.value = m.valueName? owner.value) :
    after.Consistent := by
  intro other owner
  rw [hlookup]
  by_cases howner : owner = symbol
  · rw [howner, hself, Option.some.injEq]
    constructor
    · rintro (⟨heq, _⟩ | ⟨hold, hother, _⟩)
      · exact heq.symm
      · exact absurd (hm.valueName?_eq_some hold) hother
    · exact fun heq => .inl ⟨heq.symm, rfl⟩
  · rw [hothers owner howner]
    constructor
    · rintro (⟨_, heq⟩ | ⟨hold, _, _⟩)
      · exact absurd heq howner
      · exact hm.valueName?_eq_some hold
    · intro hname
      have hold := hm.lookup?_eq_some hname
      refine .inr ⟨hold, ?_, ?_⟩
      · intro hprevious
        exact howner (Option.some.inj (hold.symm.trans (hm.lookup?_eq_some hprevious)))
      · rintro rfl
        rw [hfree] at hold
        cases hold

/-- A module stays consistent if neither the table nor the names of symbols change. -/
theorem Consistent.of_same_names {m after : Module} (hm : m.Consistent)
    (hsymbols : after.symbols = m.symbols)
    (hnames : ∀ symbol : Symbol, after.valueName? symbol.value = m.valueName? symbol.value) :
    after.Consistent := by
  intro name symbol
  rw [hnames, lookup?, hsymbols]
  exact hm name symbol

/-- Giving a free name to a symbol that exists keeps the module consistent. -/
theorem Consistent.rename {m : Module} (hm : m.Consistent) {symbol : Symbol} {name : String}
    (hsymbol : m.checkpoint.covers symbol = true) (hfree : m.lookup? name = none) :
    (m.rename symbol name).Consistent :=
  hm.of_named symbol hfree (fun _ _ => lookup?_rename_eq_some_iff)
    (valueName?_rename_self name hsymbol) fun _ howner => valueName?_rename_of_ne name howner

/-- Giving a free name to a symbol leaves alone what is found for the others. -/
theorem Consistent.lookup?_rename_of_ne {m : Module} (hm : m.Consistent)
    {symbol owner : Symbol} {name other : String} (hfree : m.lookup? name = none)
    (howner : owner ≠ symbol) :
    (m.rename symbol name).lookup? other = some owner ↔ m.lookup? other = some owner := by
  rw [lookup?_rename_eq_some_iff]
  constructor
  · rintro (⟨_, heq⟩ | ⟨hold, _, _⟩)
    · exact absurd heq howner
    · exact hold
  · intro hold
    refine .inr ⟨hold, ?_, ?_⟩
    · intro hprevious
      exact howner (Option.some.inj (hold.symm.trans (hm.lookup?_eq_some hprevious)))
    · rintro rfl
      rw [hfree] at hold
      cases hold

/-- Giving names keeps a module consistent. -/
theorem Consistent.setName {m after : Module} (hm : m.Consistent) {value : Value}
    {name : String} (h : m.setName value name = .ok after) : after.Consistent := by
  obtain ⟨symbol, _, hcovers, ⟨_, rfl⟩ | ⟨hfree, rfl⟩⟩ := setName_eq_ok h
  · exact hm
  · exact hm.rename hcovers hfree

/-- A value that has been given a name has it. -/
theorem Consistent.valueName?_setName {m after : Module} (hm : m.Consistent) {value : Value}
    {name : String} (h : m.setName value name = .ok after) :
    after.valueName? value = some name := by
  obtain ⟨symbol, rfl, hcovers, ⟨hhas, rfl⟩ | ⟨_, rfl⟩⟩ := setName_eq_ok h
  · exact hm.valueName?_eq_some hhas
  · exact valueName?_rename_self name hcovers

/-- Adding a global keeps a module consistent. -/
theorem Consistent.addGlobal {m after : Module} (hm : m.Consistent) {name : String}
    {initializer value : Value} (h : m.addGlobal name initializer = .ok (value, after)) :
    after.Consistent := by
  obtain ⟨x, _, hfree, _, rfl⟩ := addGlobal_eq_ok h
  have hnew : m.valueName? (Symbol.global m.globals.length).value = none := by
    simp [valueName?, Symbol.value]
  refine hm.of_named (.global m.globals.length) hfree ?_ ?_ ?_
  · intro other owner
    rw [lookup?, SymbolTable.find?_insert_eq_some_iff, hnew]
    simp only [lookup?, ne_eq, reduceCtorEq, not_false_eq_true, true_and]
  · simp [valueName?, Symbol.value]
  · intro owner howner
    cases owner with
    | function id => rfl
    | global id =>
      have hid : id ≠ m.globals.length := fun heq => howner (by rw [heq])
      simp only [valueName?, Symbol.value]
      rcases Nat.lt_or_gt_of_ne hid with hlt | hgt
      · rw [List.getElem?_append_left hlt]
      · rw [List.getElem?_eq_none (by simp; omega), List.getElem?_eq_none (by omega)]

/-- Adding a function, which has no name, keeps a module consistent. -/
theorem Consistent.addFunction {m : Module} (hm : m.Consistent) (parameters : List String) :
    (m.addFunction parameters).2.Consistent := by
  refine hm.of_same_names rfl ?_
  intro symbol
  cases symbol with
  | global id => rfl
  | function id =>
    simp only [valueName?, Symbol.value, Module.addFunction]
    rcases Nat.lt_trichotomy id m.functions.length with hlt | rfl | hgt
    · rw [List.getElem?_append_left hlt]
    · simp [Func.declare]
    · rw [List.getElem?_eq_none (by simp; omega), List.getElem?_eq_none (by omega)]

/-- Putting a function of the same name in the place of a function keeps a module
consistent. -/
theorem Consistent.set {m : Module} (hm : m.Consistent) {id : Nat} {f g : Func}
    (hf : m.functions[id]? = some f) (hname : g.name = f.name) :
    Consistent { m with functions := m.functions.set id g } := by
  refine hm.of_same_names rfl ?_
  intro symbol
  cases symbol with
  | global other => rfl
  | function other =>
    simp only [valueName?, Symbol.value]
    by_cases hother : id = other
    · subst hother
      have hlt := (List.getElem?_eq_some_iff.mp hf).1
      rw [List.getElem?_set_self hlt, hf, Option.bind_some, Option.bind_some, hname]
    · rw [List.getElem?_set_ne hother]

/-- Adding a block keeps a module consistent. -/
theorem Consistent.appendBlock {m after : Module} (hm : m.Consistent) {function : Nat}
    {label : String} {point : InsertPoint}
    (h : m.appendBlock function label = .ok (point, after)) : after.Consistent := by
  obtain ⟨f, hf, _, rfl⟩ := appendBlock_eq_ok h
  exact hm.set hf rfl

/-- Adding an instruction keeps a module consistent. -/
theorem Consistent.append {m after : Module} (hm : m.Consistent) {point : InsertPoint}
    {wanted : Option String} {action : Action} {value : Value}
    (h : m.append point wanted action = .ok (value, after)) : after.Consistent := by
  obtain ⟨f, _, hf, _, _, _, rfl⟩ := append_eq_ok h
  exact hm.set hf rfl

/-- The names of symbols that a rollback keeps; the others have none any more. -/
theorem valueName?_rollback_eq_some_iff {m : Module} {checkpoint : Checkpoint}
    {symbol : Symbol} {name : String} :
    (m.rollback checkpoint).valueName? symbol.value = some name ↔
      m.valueName? symbol.value = some name ∧ checkpoint.covers symbol = true := by
  cases symbol with
  | global id =>
    simp only [valueName?, Symbol.value, rollback, Checkpoint.covers, decide_eq_true_eq,
      List.getElem?_take]
    split
    · simp [*]
    · simp [*]
  | function id =>
    simp only [valueName?, Symbol.value, rollback, Checkpoint.covers, decide_eq_true_eq,
      List.getElem?_take]
    split
    · simp [*]
    · simp [*]

/-- A rollback keeps a module consistent, whatever the checkpoint. -/
theorem Consistent.rollback {m : Module} (hm : m.Consistent) (checkpoint : Checkpoint) :
    (m.rollback checkpoint).Consistent := by
  intro name symbol
  rw [lookup?_rollback_eq_some_iff, valueName?_rollback_eq_some_iff, hm name symbol]

/-- Setting the target keeps a module consistent. -/
theorem Consistent.setTarget {m : Module} (hm : m.Consistent) (target : Target) :
    (m.setTarget target).Consistent :=
  hm.of_same_names rfl fun symbol => by cases symbol <;> rfl

end Module

end LambdaArith
