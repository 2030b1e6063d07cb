/-!
# What the names of a module stand for

Globals and functions have their names from one supply, and a table says for each name which
of them has it. A name that has been used once stays known when it is released, but it does
not stand for anything then.
-/

namespace LambdaArith

/-- What a name of a module can stand for. -/
inductive Symbol where
  | global (id : Nat)
  | function (id : Nat)
deriving DecidableEq, Repr

/-- A list of names with one more, which is not listed twice. -/
def learn (known : List String) (name : String) : List String :=
  if name ∈ known then known else known ++ [name]

/-- Learning a name forgets none. -/
theorem mem_learn_of_mem {known : List String} {name other : String} (h : other ∈ known) :
    other ∈ learn known name := by
  unfold learn
  split
  · exact h
  · exact List.mem_append_left _ h

/-- A name that has been learned is known. -/
theorem mem_learn_self (known : List String) (name : String) : name ∈ learn known name := by
  unfold learn
  split
  · assumption
  · exact List.mem_append_right _ (List.mem_singleton.mpr rfl)

/-- The names that have been used, and what some of them stand for. No name stands for two
symbols. -/
structure SymbolTable where
  known : List String
  entries : List (String × Symbol)
  nodup_names : (entries.map Prod.fst).Nodup
  known_of_mem : ∀ entry ∈ entries, entry.1 ∈ known
deriving Repr

namespace SymbolTable

/-- The table in which no name is known. -/
def empty : SymbolTable :=
  ⟨[], [], List.nodup_nil, fun _ h => nomatch h⟩

/-- What a name stands for. -/
def find? (t : SymbolTable) (name : String) : Option Symbol :=
  if name ∈ t.known then t.entries.lookup name else none

/-- Keeps the entries that fulfil a condition. No name is forgotten. -/
def filter (t : SymbolTable) (keep : String × Symbol → Bool) : SymbolTable where
  known := t.known
  entries := t.entries.filter keep
  nodup_names := t.nodup_names.sublist (List.filter_sublist.map Prod.fst)
  known_of_mem := fun entry h => t.known_of_mem entry (List.mem_filter.mp h).1

/-- Releases a name. -/
def erase (t : SymbolTable) (name : String) : SymbolTable :=
  t.filter fun entry => entry.1 ≠ name

/-- Makes a name stand for a symbol, whatever it has stood for before. -/
def insert (t : SymbolTable) (name : String) (symbol : Symbol) : SymbolTable where
  known := learn t.known name
  entries := (t.erase name).entries ++ [(name, symbol)]
  nodup_names := by
    rw [List.map_append, List.nodup_append]
    refine ⟨(t.erase name).nodup_names, by simp, ?_⟩
    intro a ha b hb hab
    obtain ⟨entry, hentry, rfl⟩ := List.mem_map.mp ha
    rw [List.map_singleton, List.mem_singleton] at hb
    have hne := (List.mem_filter.mp hentry).2
    simp only [hab, hb, ne_eq, not_true_eq_false, decide_false, Bool.false_eq_true] at hne
  known_of_mem := by
    intro entry h
    rcases List.mem_append.mp h with h | h
    · exact mem_learn_of_mem ((t.erase name).known_of_mem entry h)
    · rw [List.mem_singleton.mp h]
      exact mem_learn_self t.known name

/-- In a list without repeated names, looking up finds exactly the entries. -/
private theorem lookup_eq_some_iff_mem {entries : List (String × Symbol)}
    (hnodup : (entries.map Prod.fst).Nodup) {name : String} {symbol : Symbol} :
    entries.lookup name = some symbol ↔ (name, symbol) ∈ entries := by
  induction entries with
  | nil => simp
  | cons entry rest ih =>
    obtain ⟨other, owner⟩ := entry
    rw [List.map_cons, List.nodup_cons] at hnodup
    rw [List.lookup_cons, List.mem_cons, Prod.mk.injEq]
    by_cases h : name = other
    · have hrest : (name, symbol) ∉ rest := fun hmem =>
        hnodup.1 (List.mem_map.mpr ⟨(name, symbol), hmem, h⟩)
      simp only [h, BEq.rfl, Option.some.injEq, true_and]
      rw [h] at hrest
      exact ⟨fun heq => .inl heq.symm, fun hor => (hor.resolve_right hrest).symm⟩
    · simp only [beq_false_of_ne h, h, false_and, false_or]
      exact ih hnodup.2

/-- A name stands for what its entry says, as every name with an entry is known. -/
theorem find?_eq_some_iff {t : SymbolTable} {name : String} {symbol : Symbol} :
    t.find? name = some symbol ↔ (name, symbol) ∈ t.entries := by
  rw [← lookup_eq_some_iff_mem t.nodup_names]
  unfold find?
  split
  · rfl
  · rename_i hunknown
    refine ⟨nofun, fun h => absurd ?_ hunknown⟩
    exact t.known_of_mem _ ((lookup_eq_some_iff_mem t.nodup_names).mp h)

/-- Nothing has a name in the empty table. -/
@[simp] theorem find?_empty (name : String) : empty.find? name = none := rfl

/-- What is found in a filtered table. -/
theorem find?_filter_eq_some_iff {t : SymbolTable} {keep : String × Symbol → Bool}
    {name : String} {symbol : Symbol} :
    (t.filter keep).find? name = some symbol ↔
      t.find? name = some symbol ∧ keep (name, symbol) = true := by
  rw [find?_eq_some_iff, find?_eq_some_iff]
  exact List.mem_filter

/-- A released name stands for nothing, and the others are not touched. -/
theorem find?_erase_eq_some_iff {t : SymbolTable} {name other : String} {symbol : Symbol} :
    (t.erase name).find? other = some symbol ↔ t.find? other = some symbol ∧ other ≠ name := by
  rw [erase, find?_filter_eq_some_iff, decide_eq_true_eq]

/-- A name that has been given stands for what it has been given to, and the others are not
touched. -/
theorem find?_insert_eq_some_iff {t : SymbolTable} {name other : String} {symbol owner : Symbol} :
    (t.insert name symbol).find? other = some owner ↔
      (other = name ∧ owner = symbol) ∨ (t.find? other = some owner ∧ other ≠ name) := by
  rw [← find?_erase_eq_some_iff, find?_eq_some_iff, find?_eq_some_iff, insert]
  rw [List.mem_append, List.mem_singleton, Prod.mk.injEq, or_comm]

end SymbolTable

end LambdaArith
