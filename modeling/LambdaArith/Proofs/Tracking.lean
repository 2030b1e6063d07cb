import LambdaArith.Proofs.Extensions
import LambdaArith.Proofs.Renumbering
import LambdaArith.Proofs.Scope
import Mathlib.Data.List.Basic

/-!
# Two modules that grow alike

A module and an extension of it both grow. They track each other if the same is added to both, up to
the places: what is new in the one is found in the other behind the extension. Names are not moved
with what has them, so an operation does the same to both as long as it does not ask for a name that
the extension has changed. It is then refused by both, or by none, and they still track each other.
-/

namespace LambdaArith

/-- Two results: the same error, or values that are related. -/
def Agree {ε α : Type} (Q : α → α → Prop) : Except ε α → Except ε α → Prop
  | .ok x, .ok y => Q x y
  | .error e, .error f => e = f
  | _, _ => False

section Results

variable {ε α : Type} {Q : α → α → Prop} {result other : Except ε α}

/-- What agrees with a success is one. -/
theorem Agree.exists_ok (h : Agree Q result other) {x : α} (hx : result = .ok x) :
    ∃ y, other = .ok y ∧ Q x y := by
  subst hx
  cases other with
  | error e => exact h.elim
  | ok y => exact ⟨y, rfl, h⟩

/-- What a success agrees with is one. -/
theorem Agree.exists_ok_left (h : Agree Q result other) {y : α} (hy : other = .ok y) :
    ∃ x, result = .ok x ∧ Q x y := by
  subst hy
  cases result with
  | error e => exact h.elim
  | ok x => exact ⟨x, rfl, h⟩

end Results

namespace Module

/-- What is newer than `base` goes on behind `middle`. -/
def renumbering (base middle : Module) : Renumbering :=
  ⟨base.checkpoint, middle.checkpoint⟩

/-- What `m` has behind `base`, `n` has behind `middle`. -/
structure Shifted (base middle m n : Module) : Prop where
  globals_eq : n.globals = rebase id base.globals.length middle.globals m.globals
  functions_eq : n.functions = rebase (Func.renumber (base.renumbering middle))
    base.functions.length middle.functions m.functions

/-- The same has been added to `base`, which is `m` now, and to its extension `middle`, which is `n`
now. -/
structure Tracks (base middle m n : Module) : Prop extends Shifted base middle m n where
  consistent : base.Consistent
  middle_extends : base.Extends middle
  left_extends : base.Extends m
  right_extends : middle.Extends n

section Extensions

variable {base m : Module} {id : Nat}

/-- Old globals are where they have been. -/
theorem Extends.getElem?_globals (h : base.Extends m) (hid : id < base.globals.length) :
    m.globals[id]? = base.globals[id]? := by
  rw [List.prefix_iff_getElem?.mp h.frame.globals_prefix id hid, List.getElem?_eq_getElem hid]

/-- Old functions are where they have been. -/
theorem Extends.getElem?_functions (h : base.Extends m) (hid : id < base.functions.length) :
    m.functions[id]? = base.functions[id]? := by
  rw [List.prefix_iff_getElem?.mp h.frame.functions_prefix id hid, List.getElem?_eq_getElem hid]

end Extensions

namespace Tracks

variable {base middle m n : Module} {name : String} {id : Nat}

/-- Nothing has been added yet. -/
theorem start (hbase : base.Consistent) (h : base.Extends middle) :
    base.Tracks middle base middle where
  globals_eq := by simp [rebase]
  functions_eq := by simp [rebase]
  consistent := hbase
  middle_extends := h
  left_extends := .refl hbase
  right_extends := .refl h.consistent

/-- Globals are found at their new places. -/
theorem getElem?_globals (h : base.Tracks middle m n) (id : Nat) :
    n.globals[(base.renumbering middle).global id]? = m.globals[id]? := by
  rcases Nat.lt_or_ge id base.globals.length with hlt | hge
  · have hstay : (base.renumbering middle).global id = id := shift_of_lt hlt
    have hmiddle : id < middle.globals.length :=
      Nat.lt_of_lt_of_le hlt h.middle_extends.checkpoint_le.1
    rw [hstay, h.right_extends.getElem?_globals hmiddle, h.middle_extends.getElem?_globals hlt,
      h.left_extends.getElem?_globals hlt]
  · have hmoved := @getElem?_rebase _ (fun g : Global => g) _ _ middle.globals m.globals hge
    rw [Option.map_id'] at hmoved
    rw [h.globals_eq]
    exact hmoved

/-- Functions are found at their new places, and those that have moved are renumbered. -/
theorem getElem?_functions (h : base.Tracks middle m n) (id : Nat) :
    n.functions[(base.renumbering middle).function id]? = m.functions[id]? ∨
      n.functions[(base.renumbering middle).function id]? =
        (m.functions[id]?).map (Func.renumber (base.renumbering middle)) := by
  -- An old function is the same, but nothing is known here that would make it the renumbered one.
  rcases Nat.lt_or_ge id base.functions.length with hlt | hge
  · have hstay : (base.renumbering middle).function id = id := shift_of_lt hlt
    have hmiddle : id < middle.functions.length :=
      Nat.lt_of_lt_of_le hlt h.middle_extends.checkpoint_le.2
    left
    rw [hstay, h.right_extends.getElem?_functions hmiddle, h.middle_extends.getElem?_functions hlt,
      h.left_extends.getElem?_functions hlt]
  · right
    rw [h.functions_eq]
    exact getElem?_rebase hge

/-- What does not depend on places is the same about a function at its new place. -/
theorem functions_bind {β : Type} {ask : Func → Option β} (h : base.Tracks middle m n)
    (hask : ∀ f : Func, ask (f.renumber (base.renumbering middle)) = ask f) (id : Nat) :
    (n.functions[(base.renumbering middle).function id]?).bind ask =
      (m.functions[id]?).bind ask := by
  rcases h.getElem?_functions id with heq | heq
  · rw [heq]
  · rw [heq]
    cases m.functions[id]? with
    | none => rfl
    | some f => exact hask f

/-- The ends of the lists of globals correspond. -/
theorem globals_length (h : base.Tracks middle m n) :
    n.globals.length = (base.renumbering middle).global m.globals.length := by
  rw [h.globals_eq]
  exact length_rebase h.left_extends.checkpoint_le.1

/-- The ends of the lists of functions correspond. -/
theorem functions_length (h : base.Tracks middle m n) :
    n.functions.length = (base.renumbering middle).function m.functions.length := by
  rw [h.functions_eq]
  exact length_rebase h.left_extends.checkpoint_le.2

/-- Values have the same names at their new places. -/
theorem valueName?_renumber (h : base.Tracks middle m n) (v : Value) :
    n.valueName? (v.renumber (base.renumbering middle)) = m.valueName? v := by
  cases v with
  | constant x => rfl
  | parameter owner index => exact h.functions_bind (fun _ => rfl) owner
  | result owner index =>
    refine h.functions_bind (fun f => ?_) owner
    rw [Func.renumber, List.getElem?_map]
    cases f.instructions[index]? <;> rfl
  | global id => exact congrArg (Option.map Global.name) (h.getElem?_globals id)
  | function id => exact h.functions_bind (fun _ => rfl) id

/-- A value has the same double as an initializer at its new place. -/
theorem initialValue_renumber (h : base.Tracks middle m n) (name : String) (v : Value) :
    n.initialValue name (v.renumber (base.renumbering middle)) = m.initialValue name v := by
  cases v with
  | global id => simp only [Value.renumber, initialValue, initializer?, h.getElem?_globals]
  | _ => rfl

/-- A function is one at its new place. -/
theorem lt_functions_length_iff (h : base.Tracks middle m n) :
    (base.renumbering middle).function id < n.functions.length ↔ id < m.functions.length := by
  rw [h.functions_length]
  exact shift_lt_shift_iff h.middle_extends.checkpoint_le.2

/-- A function is one at its new place, and nothing else is. -/
theorem isFunction_renumber (h : base.Tracks middle m n) (v : Value) :
    n.isFunction (v.renumber (base.renumbering middle)) = m.isFunction v := by
  cases v with
  | function id => exact decide_eq_decide.mpr h.lt_functions_length_iff
  | _ => rfl

/-- What is newer than the extension has been moved. -/
theorem exists_renumber (base : Module) {symbol : Symbol}
    (hnew : middle.checkpoint.covers symbol = false) :
    ∃ old : Symbol, old.renumber (base.renumbering middle) = symbol := by
  have hshift : ∀ {start next place : Nat}, next ≤ place →
      shift start next (start + (place - next)) = place := by
    intro start next place hle
    rw [shift_of_le (Nat.le_add_right _ _)]
    omega
  cases symbol with
  | global id =>
    have hle : middle.globals.length ≤ id := Nat.le_of_not_lt (of_decide_eq_false hnew)
    exact ⟨.global _, congrArg Symbol.global (hshift hle)⟩
  | function id =>
    have hle : middle.functions.length ≤ id := Nat.le_of_not_lt (of_decide_eq_false hnew)
    exact ⟨.function _, congrArg Symbol.function (hshift hle)⟩

/-- A name that the extension has not changed stands for the same at its new place. -/
theorem lookup?_eq (h : base.Tracks middle m n)
    (hname : middle.lookup? name = base.lookup? name) :
    n.lookup? name = (m.lookup? name).map (Symbol.renumber (base.renumbering middle)) := by
  cases hm : m.lookup? name with
  | some symbol =>
    have hvalue := h.left_extends.consistent.valueName?_eq_some hm
    rw [← h.valueName?_renumber, ← Symbol.value_renumber] at hvalue
    exact h.right_extends.consistent.lookup?_eq_some hvalue
  | none =>
    rw [Option.map_none, Option.eq_none_iff_forall_ne_some]
    intro symbol hn
    by_cases hcovers : middle.checkpoint.covers symbol = true
    · -- What the name stands for is older than the extension, so it is in `base`.
      have hbase := (h.right_extends.frame.lookup?_iff name symbol hcovers).mp hn
      rw [hname] at hbase
      have hold := h.consistent.covers_of_lookup? hbase
      have hleft := (h.left_extends.frame.lookup?_iff name symbol hold).mpr hbase
      rw [hm] at hleft
      cases hleft
    · obtain ⟨old, rfl⟩ := exists_renumber base (Bool.eq_false_iff.mpr hcovers)
      have hvalue := h.right_extends.consistent.valueName?_eq_some hn
      rw [Symbol.value_renumber, h.valueName?_renumber] at hvalue
      rw [h.left_extends.consistent.lookup?_eq_some hvalue] at hm
      cases hm

/-- The parameters of a function have the same names at its new place. -/
theorem parameterNames_eq (h : base.Tracks middle m n) (function : Option Nat) :
    n.parameterNames (function.map (base.renumbering middle).function) =
      m.parameterNames function := by
  cases function with
  | none => rfl
  | some id =>
    simp only [Option.map_some, parameterNames]
    rcases h.getElem?_functions id with heq | heq
    · rw [heq]
    · rw [heq]
      cases m.functions[id]? <;> rfl

/-- An identifier stands for the same at its new place. -/
theorem resolve_value (h : base.Tracks middle m n)
    (hname : middle.lookup? name = base.lookup? name) (function : Option Nat) :
    (n.resolve (function.map (base.renumbering middle).function) name).map Resolution.value =
      ((m.resolve function name).map Resolution.value).map
        (Value.renumber (base.renumbering middle)) := by
  have hglobal : n.global? name =
      (m.global? name).map (Value.renumber (base.renumbering middle)) := by
    simp only [global?, h.lookup?_eq hname]
    cases m.lookup? name with
    | none => rfl
    | some symbol => cases symbol <;> rfl
  rw [resolve_eq, resolve_eq, h.parameterNames_eq, hglobal]
  cases function with
  | none => cases m.global? name <;> rfl
  | some id =>
    simp only [Option.map_some]
    cases (m.parameterNames (some id)).findIdx? fun other => other = name with
    | none => cases m.global? name <;> rfl
    | some index => rfl

end Tracks

/-- A value of a module, and what it is in one that tracks it. If it is a function, it is a new
one. -/
structure ValueTracks (base middle : Module) (v w : Value) : Prop where
  eq_renumber : w = v.renumber (base.renumbering middle)
  newIn : v.NewIn base

/-- The end of a block of a new function, and what it is in a module that tracks it. -/
structure PointTracks (base middle : Module) (p q : InsertPoint) : Prop where
  eq_renumber : q = p.renumber (base.renumbering middle)
  le_function : base.functions.length ≤ p.function

/-- Two answers of operations on modules: the same refusal, or related values and modules that have
the same new behind `base` and behind `middle`. -/
def TrackingAnswers {α : Type} (base middle : Module) (Q : α → α → Prop)
    (answer other : Except BackendError (α × Module)) : Prop :=
  Agree (fun x y => Q x.1 y.1 ∧ Shifted base middle x.2 y.2) answer other

section Places

variable {base middle : Module} {v w : Value} {p q : InsertPoint}

/-- What is new behind a module is new behind its extension when it is moved there. -/
theorem ValueTracks.newIn_right (h : ValueTracks base middle v w) : w.NewIn middle := by
  obtain ⟨rfl, hnew⟩ := h
  intro id hid
  cases v with
  | function place =>
    cases hid
    have hmoved : (base.renumbering middle).function place =
        middle.functions.length + (place - base.functions.length) := shift_of_le (hnew place rfl)
    omega
  | _ => cases hid

/-- The end of a block of a new function is in one that is new behind the extension. -/
theorem PointTracks.le_function_right (h : PointTracks base middle p q) :
    middle.functions.length ≤ q.function := by
  obtain ⟨rfl, hnew⟩ := h
  have hmoved : (base.renumbering middle).function p.function =
      middle.functions.length + (p.function - base.functions.length) := shift_of_le hnew
  simp only [InsertPoint.renumber]
  omega

end Places

namespace Tracks

variable {base middle m n : Module} {name : String} {id : Nat}

/-- Adding a global to both. -/
theorem addGlobal (h : base.Tracks middle m n) (hname : middle.lookup? name = base.lookup? name)
    (initializer : Value) :
    TrackingAnswers base middle (ValueTracks base middle)
      (m.addGlobal name initializer)
      (n.addGlobal name (initializer.renumber (base.renumbering middle))) := by
  have htaken : (n.lookup? name).isSome = (m.lookup? name).isSome := by
    rw [h.lookup?_eq hname, Option.isSome_map]
  unfold Module.addGlobal
  rw [h.initialValue_renumber, htaken]
  split
  · rfl
  · split
    · rfl
    · refine ⟨⟨congrArg Value.global h.globals_length, nofun⟩, ?_, h.functions_eq⟩
      have hle : base.globals.length ≤ m.globals.length := h.left_extends.checkpoint_le.1
      dsimp only
      rw [rebase_append hle, ← h.globals_eq]
      rfl

/-- Adding a function to both. -/
theorem addFunction (h : base.Tracks middle m n) (parameters : List String) :
    TrackingAnswers base middle
      (fun i j => ValueTracks base middle (.function i) (.function j))
      (.ok (m.addFunction parameters)) (.ok (n.addFunction parameters)) := by
  have hle : base.functions.length ≤ m.functions.length := h.left_extends.checkpoint_le.2
  refine ⟨⟨congrArg Value.function h.functions_length, fun _ hid => ?_⟩, h.globals_eq, ?_⟩
  · cases hid
    exact hle
  dsimp only [Module.addFunction]
  rw [rebase_append hle, ← h.functions_eq]
  rfl

/-- Replacing a new function in both. -/
theorem functions_set (h : base.Tracks middle m n) (hid : base.functions.length ≤ id) (f : Func) :
    n.functions.set ((base.renumbering middle).function id)
        (f.renumber (base.renumbering middle)) =
      rebase (Func.renumber (base.renumbering middle)) base.functions.length middle.functions
        (m.functions.set id f) := by
  rw [rebase_set hid, h.functions_eq]
  rfl

/-- A new function is found in both. -/
theorem getElem?_new (h : base.Tracks middle m n) (hid : base.functions.length ≤ id) :
    n.functions[(base.renumbering middle).function id]? =
      (m.functions[id]?).map (Func.renumber (base.renumbering middle)) := by
  rw [h.functions_eq]
  exact getElem?_rebase hid

/-- Adding a block to a new function of both. -/
theorem appendBlock (h : base.Tracks middle m n) (hid : base.functions.length ≤ id)
    (label : String) :
    TrackingAnswers base middle (PointTracks base middle) (m.appendBlock id label)
      (n.appendBlock ((base.renumbering middle).function id) label) := by
  unfold Module.appendBlock
  rw [h.getElem?_new hid]
  cases m.functions[id]? with
  | none => rfl
  | some f => exact ⟨⟨rfl, hid⟩, h.globals_eq, h.functions_set hid (f.appendBlock label)⟩

/-- Adding an instruction to a new function of both. -/
theorem append (h : base.Tracks middle m n) {p q : InsertPoint}
    (hp : PointTracks base middle p q) (wanted : Option String) (action : Action) :
    TrackingAnswers base middle (ValueTracks base middle)
      (m.append p wanted action)
      (n.append q wanted (action.renumber (base.renumbering middle))) := by
  unfold Module.append
  rw [hp.eq_renumber, InsertPoint.renumber, h.getElem?_new hp.le_function]
  cases m.functions[p.function]? with
  | none => rfl
  | some f =>
    have hblocks : (f.renumber (base.renumbering middle)).blocks = f.blocks := rfl
    simp only [Option.map_some, hblocks, Func.isTerminated_renumber]
    cases f.blocks[p.block]? with
    | none => rfl
    | some block =>
      dsimp only
      split
      · rfl
      · have hset := h.functions_set hp.le_function (f.append p.block wanted action)
        rw [Func.renumber_append] at hset
        refine ⟨⟨?_, nofun⟩, h.globals_eq, hset⟩
        simp [Value.renumber, Func.renumber]

/-- Renaming a new function of both. -/
theorem rename (h : base.Tracks middle m n) (hid : base.functions.length ≤ id) (name : String) :
    Shifted base middle (m.rename (.function id) name)
      (n.rename (.function ((base.renumbering middle).function id)) name) := by
  refine ⟨h.globals_eq, ?_⟩
  simp only [Module.rename, List.modify_eq_set_getElem?, h.getElem?_new hid]
  cases m.functions[id]? with
  | none => exact h.functions_eq
  | some f => exact h.functions_set hid { f with name := some name }

/-- Naming a new function of both. -/
theorem setName (h : base.Tracks middle m n) (hname : middle.lookup? name = base.lookup? name)
    (hid : base.functions.length ≤ id) :
    TrackingAnswers base middle (fun _ _ => True)
      ((m.setName (.function id) name).map fun m => ((), m))
      ((n.setName (.function ((base.renumbering middle).function id)) name).map
        fun n => ((), n)) := by
  have hsame : ∀ symbol : Symbol, symbol.renumber (base.renumbering middle) =
      .function ((base.renumbering middle).function id) ↔ symbol = .function id := by
    intro symbol
    cases symbol with
    | global other => simp [Symbol.renumber]
    | function other =>
      simp only [Symbol.renumber, Symbol.function.injEq]
      exact shift_inj h.middle_extends.checkpoint_le.2
  unfold Module.setName
  simp only [symbolOf, h.lt_functions_length_iff, h.lookup?_eq hname]
  by_cases hlt : id < m.functions.length
  · simp only [hlt, if_true]
    cases m.lookup? name with
    | none => exact ⟨trivial, h.rename hid name⟩
    | some owner =>
      simp only [Option.map_some, hsame]
      by_cases howner : owner = .function id
      · simp only [howner, if_true]
        exact ⟨trivial, h.toShifted⟩
      · simp only [howner, if_false]
        rfl
  · simp only [hlt, if_false]
    rfl

end Tracks

end Module

end LambdaArith
