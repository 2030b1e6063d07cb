import LambdaArith.Module.Edit

/-!
# What the operations on a module do

Each operation that can be refused has one lemma that says all that is known when it was not:
what it has found, and what the module is afterwards. Whoever needs to know what an operation
does to a property of modules starts from there.
-/

namespace LambdaArith

/-- What is at a place of a list with one more element is there before, or is the new element. -/
theorem getElem?_append_singleton_cases {α : Type} {xs : List α} {x y : α} {i : Nat}
    (h : (xs ++ [x])[i]? = some y) : xs[i]? = some y ∨ i = xs.length ∧ y = x := by
  rcases Nat.lt_or_ge i xs.length with hlt | hge
  · rw [List.getElem?_append_left hlt] at h
    exact .inl h
  · have hlt := (List.getElem?_eq_some_iff.mp h).1
    rw [List.length_append, List.length_singleton] at hlt
    have hlast : i = xs.length := by omega
    rw [hlast, List.getElem?_concat_length, Option.some.injEq] at h
    exact .inr ⟨hlast, h.symm⟩

namespace Module

/-- What a global can be initialized with: a constant, or a global that exists. -/
theorem initialValue_eq_ok {m : Module} {name : String} {value : Value} {x : Float} :
    m.initialValue name value = .ok x ↔
      value = .constant x ∨ ∃ id, value = .global id ∧ m.initializer? id = some x := by
  cases value with
  | constant y => simp [initialValue]
  | global id =>
    cases hid : m.initializer? id with
    | none => simp [initialValue, hid]
    | some y => simp [initialValue, hid]
  | _ => simp [initialValue]

/-- A global is added at the end, under a name that has been free. -/
theorem addGlobal_eq_ok {m after : Module} {name : String} {initializer value : Value}
    (h : m.addGlobal name initializer = .ok (value, after)) :
    ∃ x, m.initialValue name initializer = .ok x ∧ m.lookup? name = none ∧
      value = .global m.globals.length ∧
      after = { m with
        symbols := m.symbols.insert name (.global m.globals.length)
        globals := m.globals ++ [⟨name, x⟩] } := by
  unfold addGlobal at h
  split at h
  · cases h
  · rename_i x hx
    split at h
    · cases h
    · rename_i hfree
      cases h
      exact ⟨x, hx, Option.not_isSome_iff_eq_none.mp hfree, rfl, rfl⟩

/-- A global can be added under a free name. -/
theorem exists_addGlobal {m : Module} {name : String} {initializer : Value} {x : Float}
    (hinitial : m.initialValue name initializer = .ok x) (hfree : m.lookup? name = none) :
    ∃ after, m.addGlobal name initializer = .ok (.global m.globals.length, after) := by
  simp [addGlobal, hinitial, hfree]

/-- A value that is a symbol of the module exists. -/
theorem covers_of_symbolOf {m : Module} {value : Value} {symbol : Symbol}
    (h : m.symbolOf value = .ok symbol) :
    symbol.value = value ∧ m.checkpoint.covers symbol = true := by
  unfold symbolOf at h
  split at h
  · split at h
    · cases h
      exact ⟨rfl, decide_eq_true ‹_›⟩
    · cases h
  · split at h
    · cases h
      exact ⟨rfl, decide_eq_true ‹_›⟩
    · cases h
  · cases h

/-- Giving a name either changes nothing, as the value has it already, or gives a free name to
a symbol that exists. -/
theorem setName_eq_ok {m after : Module} {value : Value} {name : String}
    (h : m.setName value name = .ok after) :
    ∃ symbol, symbol.value = value ∧ m.checkpoint.covers symbol = true ∧
      ((m.lookup? name = some symbol ∧ after = m) ∨
        (m.lookup? name = none ∧ after = m.rename symbol name)) := by
  unfold setName at h
  split at h
  · cases h
  · rename_i symbol hsymbol
    obtain ⟨hvalue, hcovers⟩ := covers_of_symbolOf hsymbol
    refine ⟨symbol, hvalue, hcovers, ?_⟩
    split at h
    · rename_i owner howner
      split at h
      · rename_i heq
        cases h
        exact .inl ⟨heq ▸ howner, rfl⟩
      · cases h
    · rename_i hfree
      cases h
      exact .inr ⟨hfree, rfl⟩

/-- A function can be given a free name, and the name that it has. -/
theorem exists_setName {m : Module} {id : Nat} {name : String} (hid : id < m.functions.length)
    (hname : ∀ symbol, m.lookup? name = some symbol → symbol = .function id) :
    ∃ after, m.setName (.function id) name = .ok after := by
  simp only [setName, symbolOf, hid, if_true]
  cases hlookup : m.lookup? name with
  | none => exact ⟨_, rfl⟩
  | some owner => exact ⟨m, if_pos (hname owner hlookup)⟩

/-- Giving a name, as an operation that has no value. -/
theorem setName_of_map {m after : Module} {value : Value} {name : String} {a : Unit}
    (h : (m.setName value name).map (fun m => ((), m)) = .ok (a, after)) :
    m.setName value name = .ok after := by
  cases hok : m.setName value name with
  | error error => simp [hok, Except.map] at h
  | ok m' =>
    simp only [hok, Except.map, Except.ok.injEq, Prod.mk.injEq, true_and] at h
    rw [h]

/-- A block is added at the end of a function that exists. -/
theorem appendBlock_eq_ok {m after : Module} {function : Nat} {label : String}
    {point : InsertPoint} (h : m.appendBlock function label = .ok (point, after)) :
    ∃ f, m.functions[function]? = some f ∧ point = ⟨function, f.blocks.length⟩ ∧
      after = { m with functions := m.functions.set function (f.appendBlock label) } := by
  unfold appendBlock at h
  split at h
  · cases h
  · rename_i f hf
    cases h
    exact ⟨f, hf, rfl, rfl⟩

/-- An instruction is added at the end of a block that exists and is not terminated. -/
theorem append_eq_ok {m after : Module} {point : InsertPoint} {wanted : Option String}
    {action : Action} {value : Value} (h : m.append point wanted action = .ok (value, after)) :
    ∃ f block, m.functions[point.function]? = some f ∧ f.blocks[point.block]? = some block ∧
      f.isTerminated block = false ∧ value = .result point.function f.instructions.length ∧
      after = { m with
        functions := m.functions.set point.function (f.append point.block wanted action) } := by
  unfold append at h
  split at h
  · cases h
  · rename_i f hf
    split at h
    · cases h
    · rename_i block hblock
      split at h
      · cases h
      · rename_i hopen
        cases h
        exact ⟨f, block, hf, hblock, Bool.eq_false_iff.mpr hopen, rfl, rfl⟩

/-- The table of symbols after a symbol has been released. -/
theorem find?_released_eq_some_iff {m : Module} {symbol owner : Symbol} {name : String} :
    (m.released symbol).find? name = some owner ↔
      m.lookup? name = some owner ∧ m.valueName? symbol.value ≠ some name := by
  unfold released
  split
  · rename_i hnone
    simp only [hnone, lookup?, ne_eq, reduceCtorEq, not_false_eq_true, and_true]
  · rename_i previous hprevious
    rw [SymbolTable.find?_erase_eq_some_iff, hprevious, lookup?]
    refine and_congr_right fun _ => ⟨fun hne heq => hne (Option.some.inj heq).symm, ?_⟩
    exact fun hne heq => hne (congrArg some heq.symm)

/-- Renaming a symbol changes nothing about a function but its name. -/
theorem exists_of_getElem?_rename {m : Module} {symbol : Symbol} {name : String} {id : Nat}
    {f : Func} (h : (m.rename symbol name).functions[id]? = some f) :
    ∃ (g : Func) (given : Option String), m.functions[id]? = some g ∧
      f = { g with name := given } := by
  cases symbol with
  | global place => exact ⟨f, f.name, h, rfl⟩
  | function place =>
    have hfunctions : (m.rename (.function place) name).functions =
        m.functions.modify place fun f => { f with name := some name } := rfl
    rw [hfunctions, List.getElem?_modify] at h
    obtain ⟨g, hg, hf⟩ := Option.map_eq_some_iff.mp h
    by_cases hplace : place = id
    · rw [if_pos hplace] at hf
      exact ⟨g, some name, hg, hf.symm⟩
    · rw [if_neg hplace] at hf
      exact ⟨g, g.name, hg, hf.symm⟩

/-- What names stand for after a symbol has been renamed. -/
theorem lookup?_rename_eq_some_iff {m : Module} {symbol owner : Symbol} {name other : String} :
    (m.rename symbol name).lookup? other = some owner ↔
      (other = name ∧ owner = symbol) ∨
        (m.lookup? other = some owner ∧ m.valueName? symbol.value ≠ some other ∧
          other ≠ name) := by
  have htable : (m.rename symbol name).symbols = (m.released symbol).insert name symbol := by
    cases symbol <;> rfl
  rw [lookup?, htable, SymbolTable.find?_insert_eq_some_iff, find?_released_eq_some_iff,
    and_assoc]

/-- What names stand for after a rollback. -/
theorem lookup?_rollback_eq_some_iff {m : Module} {checkpoint : Checkpoint} {symbol : Symbol}
    {name : String} :
    (m.rollback checkpoint).lookup? name = some symbol ↔
      m.lookup? name = some symbol ∧ checkpoint.covers symbol = true :=
  SymbolTable.find?_filter_eq_some_iff

end Module

end LambdaArith
