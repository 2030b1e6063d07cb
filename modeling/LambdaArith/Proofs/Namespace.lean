import LambdaArith.Proofs.Request
import LambdaArith.Proofs.Scope

/-!
# The namespace of a module

Globals and functions share one namespace. Whatever has been asked of a module, a name is found for
exactly that global or function whose name it is at present. So a name that has been given up, or
whose owner has been dropped, is free again.
-/

namespace LambdaArith

namespace Module

/-- Nothing is found under the name, and anything can be given it. -/
structure Free (m : Module) (name : String) : Prop where
  global?_eq_none : m.global? name = none
  function?_eq_none : m.function? name = none
  exists_addGlobal : ∀ x, ∃ value after, m.addGlobal name (.constant x) = .ok (value, after)
  exists_setName : ∀ symbol : Symbol, m.checkpoint.covers symbol = true →
    ∃ after, m.setName symbol.value name = .ok after

variable {m after : Module} {name : String}

/-- What is found under the name of a function. -/
theorem function?_eq_some_iff {value : Value} :
    m.function? name = some value ↔
      ∃ id, m.lookup? name = some (.function id) ∧ value = .function id := by
  unfold function?
  split
  · rename_i id hid
    simp only [hid, Option.some.injEq, Symbol.function.injEq]
    exact ⟨fun h => ⟨id, rfl, h.symm⟩, fun ⟨_, hid', hvalue⟩ => by rw [hvalue, hid']⟩
  · rename_i hno
    exact ⟨nofun, fun ⟨id, hid, _⟩ => absurd hid (hno id)⟩

/-- A symbol that exists is what its value is. -/
theorem symbolOf_value {symbol : Symbol} (h : m.checkpoint.covers symbol = true) :
    m.symbolOf symbol.value = .ok symbol := by
  cases symbol with
  | global id =>
    have hid : id < m.globals.length := of_decide_eq_true h
    simp only [Symbol.value, symbolOf, hid, if_true]
  | function id =>
    have hid : id < m.functions.length := of_decide_eq_true h
    simp only [Symbol.value, symbolOf, hid, if_true]

/-- A name that stands for nothing is free. -/
theorem free_of_lookup?_eq_none (h : m.lookup? name = none) : m.Free name where
  global?_eq_none := by simp only [global?, h]
  function?_eq_none := by simp only [function?, h]
  exists_addGlobal := fun x => by
    have hinitial : m.initialValue name (.constant x) = .ok x := rfl
    exact ⟨_, exists_addGlobal hinitial h⟩
  exists_setName := fun symbol hsymbol => by
    have hset : m.setName symbol.value name = .ok (m.rename symbol name) := by
      simp only [setName, symbolOf_value hsymbol, h]
    exact ⟨_, hset⟩

/-- A global is found under a name exactly if it is there and that is its name. -/
theorem Consistent.global?_eq_some_iff (hm : m.Consistent) {id : Nat} :
    m.global? name = some (.global id) ↔
      id < m.globals.length ∧ m.valueName? (.global id) = some name := by
  have hnamed := hm name (.global id)
  constructor
  · intro h
    obtain ⟨id', hlookup, hid⟩ := Module.global?_eq_some_iff.mp h
    cases hid
    exact ⟨hm.lt_of_lookup? hlookup, hnamed.mp hlookup⟩
  · rintro ⟨_, h⟩
    exact Module.global?_eq_some_iff.mpr ⟨id, hnamed.mpr h, rfl⟩

/-- A function is found under a name exactly if it is there and that is its name. -/
theorem Consistent.function?_eq_some_iff (hm : m.Consistent) {id : Nat} :
    m.function? name = some (.function id) ↔
      id < m.functions.length ∧ m.valueName? (.function id) = some name := by
  have hnamed := hm name (.function id)
  constructor
  · intro h
    obtain ⟨id', hlookup, hid⟩ := Module.function?_eq_some_iff.mp h
    cases hid
    exact ⟨of_decide_eq_true (hm.covers_of_lookup? hlookup), hnamed.mp hlookup⟩
  · rintro ⟨_, h⟩
    exact Module.function?_eq_some_iff.mpr ⟨id, hnamed.mpr h, rfl⟩

/-- No two symbols have the same name. -/
theorem Consistent.symbol_unique (hm : m.Consistent) {symbol other : Symbol}
    (h : m.valueName? symbol.value = some name) (h' : m.valueName? other.value = some name) :
    symbol = other := by
  have hlookup := hm.lookup?_eq_some h
  rw [hm.lookup?_eq_some h'] at hlookup
  exact (Option.some.inj hlookup).symm

/-- What is found under a name has it. -/
theorem Consistent.valueName?_of_found (hm : m.Consistent) {value : Value}
    (h : m.global? name = some value ∨ m.function? name = some value) :
    m.valueName? value = some name := by
  rcases h with h | h
  · obtain ⟨id, hlookup, rfl⟩ := Module.global?_eq_some_iff.mp h
    exact hm.valueName?_eq_some hlookup
  · obtain ⟨id, hlookup, rfl⟩ := Module.function?_eq_some_iff.mp h
    exact hm.valueName?_eq_some hlookup

/-- A name is not found for a global and a function. -/
theorem global?_eq_none_or_function?_eq_none (m : Module) (name : String) :
    m.global? name = none ∨ m.function? name = none := by
  unfold global? function?
  cases m.lookup? name with
  | none => exact .inl rfl
  | some symbol =>
    cases symbol with
    | global id => exact .inr rfl
    | function id => exact .inl rfl

/-- A name that has been given up for another one is free. -/
theorem Consistent.free_of_setName (hm : m.Consistent) {value : Value} {old : String}
    (hset : m.setName value name = .ok after) (hold : m.valueName? value = some old)
    (hne : old ≠ name) : after.Free old := by
  obtain ⟨symbol, rfl, _, ⟨hhas, rfl⟩ | ⟨_, rfl⟩⟩ := setName_eq_ok hset
  · have hname := hm.valueName?_eq_some hhas
    rw [hold, Option.some.injEq] at hname
    exact absurd hname hne
  · refine free_of_lookup?_eq_none (Option.eq_none_iff_forall_ne_some.mpr fun owner howner => ?_)
    rcases lookup?_rename_eq_some_iff.mp howner with ⟨heq, _⟩ | ⟨_, hreleased, _⟩
    · exact hne heq
    · exact hreleased hold

/-- The name of a symbol that is dropped by a rollback is free. -/
theorem Consistent.free_of_rollback (hm : m.Consistent) {symbol : Symbol}
    {checkpoint : Checkpoint} (hname : m.valueName? symbol.value = some name)
    (hdropped : checkpoint.covers symbol = false) : (m.rollback checkpoint).Free name := by
  refine free_of_lookup?_eq_none (Option.eq_none_iff_forall_ne_some.mpr fun owner howner => ?_)
  obtain ⟨hlookup, hcovers⟩ := lookup?_rollback_eq_some_iff.mp howner
  have howner' : owner = symbol := hm.symbol_unique (hm.valueName?_eq_some hlookup) hname
  rw [howner', hdropped] at hcovers
  cases hcovers

/-- Whatever has been asked of a module, refused or not, with whatever values, places and
checkpoints: a name is found for a global or a function exactly if that is there and has the name.
So no two of them share a name, what is found has the name, and a name is free when what had it has
been given another name or has been dropped. -/
theorem names_stand_for_their_owners (name : String) (requests : List Request) :
    let m := ofRequests name requests
    (∀ n id, m.global? n = some (.global id) ↔
      id < m.globals.length ∧ m.valueName? (.global id) = some n) ∧
    (∀ n id, m.function? n = some (.function id) ↔
      id < m.functions.length ∧ m.valueName? (.function id) = some n) ∧
    (∀ n (symbol other : Symbol), m.valueName? symbol.value = some n →
      m.valueName? other.value = some n → symbol = other) ∧
    (∀ n, m.global? n = none ∨ m.function? n = none) ∧
    (∀ n value, m.global? n = some value ∨ m.function? n = some value →
      m.valueName? value = some n) ∧
    (∀ value old new after, m.setName value new = .ok after → m.valueName? value = some old →
      old ≠ new → after.Free old) ∧
    (∀ checkpoint n (symbol : Symbol), m.valueName? symbol.value = some n →
      checkpoint.covers symbol = false → (m.rollback checkpoint).Free n) := by
  have hm : (ofRequests name requests).Consistent :=
    consistent_invariant.ofRequests consistent_empty name requests
  refine ⟨fun _ _ => hm.global?_eq_some_iff, fun _ _ => hm.function?_eq_some_iff,
    ?_, ?_, ?_, ?_, ?_⟩
  · exact fun _ _ _ h h' => hm.symbol_unique h h'
  · exact fun n => global?_eq_none_or_function?_eq_none _ n
  · exact fun _ _ h => hm.valueName?_of_found h
  · exact fun _ _ _ _ hset hold hne => hm.free_of_setName hset hold hne
  · exact fun _ _ _ hname hdropped => hm.free_of_rollback hname hdropped

/-- A function has been renamed inside a function that is being built, and a rollback to an older
checkpoint has dropped a global. The name that the function gives up and the name of a global that
is dropped are free. -/
theorem names_stand_for_their_owners_renamed :
    let m := ofRequests "m" [.operation (.addFunction []), .operation (.setName (.function 0) "f"),
      .call (.lowerAll [.define "x" (.number 1)]), .operation (.rollback ⟨0, 1⟩),
      .within ⟨0, 0⟩ [.operation (.setName (.function 0) "x"), .lower (.define "f" (.number 2))]]
    (∃ after, m.setName (.function 0) "g" = .ok after ∧ after.Free "x") ∧
      (m.rollback ⟨0, 1⟩).Free "f" := by
  intro m
  obtain ⟨_, _, _, _, _, hreleased, hdropped⟩ := names_stand_for_their_owners "m" _
  exact ⟨⟨_, rfl, hreleased (.function 0) "x" "g" _ rfl rfl (by decide)⟩,
    hdropped ⟨0, 1⟩ "f" (.global 0) rfl rfl⟩

end Module

end LambdaArith
