import LambdaArith.Proofs.Described
import LambdaArith.Proofs.Alike
import LambdaArith.Proofs.Derivation

/-!
# What expressions mean

An expression can be evaluated at once, without being lowered. Evaluation goes from left to
right and keeps the globals that have been bound. A module represents those in its table of
symbols.
-/

namespace LambdaArith

/-- Doubles by the names that they are bound to, the latest first. -/
abbrev Bindings := List (String × Float)

namespace Expr

/-- The value of an expression, given the arguments of the function around it and the globals
that are bound, and the globals that are bound after it. Lambdas have no value of their own. -/
def evaluate (arguments : Bindings) : Expr → Bindings → Option (Float × Bindings)
  | number x, globals => some (x, globals)
  | binary op lhs rhs, globals => do
    let (x, globals) ← lhs.evaluate arguments globals
    let (y, globals) ← rhs.evaluate arguments globals
    return (op.apply x y, globals)
  | define name value, globals => do
    let (x, globals) ← value.evaluate arguments globals
    return (x, (name, x) :: globals)
  | lambda _ _, _ => none
  | identifier name, globals => do
    let x ← (arguments.lookup name).or (globals.lookup name)
    return (x, globals)

/-- The globals that are bound after an expression of a program. What the body of a function
binds does not depend on the arguments, so any will do. -/
def globals (e : Expr) (before : Bindings) : Bindings :=
  let outcome := match e.topLevel.lambda? with
    | some (parameters, body) => body.evaluate (parameters.map fun name => (name, 0)) before
    | none => e.topLevel.evaluate [] before
  (outcome.map Prod.snd).getD before

/-- The globals that are bound after a program. -/
def globalsAfter (exprs : List Expr) (before : Bindings) : Bindings :=
  exprs.foldl (fun bound e => e.globals bound) before

end Expr

/-- What the parameters of a function are given, by their names. -/
theorem lookup_zip_eq_getElem? {α : Type} {parameters : List String} (hnodup : parameters.Nodup)
    {arguments : List α} (hlength : arguments.length = parameters.length) {index : Nat}
    {name : String} (hname : parameters[index]? = some name) :
    (parameters.zip arguments).lookup name = arguments[index]? := by
  induction parameters generalizing arguments index with
  | nil => cases hname
  | cons first rest ih =>
    rw [List.nodup_cons] at hnodup
    cases arguments with
    | nil => cases hlength
    | cons x arguments =>
      rw [List.zip_cons_cons, List.lookup_cons]
      cases index with
      | zero =>
        rw [List.getElem?_cons_zero, Option.some.injEq] at hname
        simp [hname]
      | succ index =>
        rw [List.getElem?_cons_succ] at hname ⊢
        have hne : name ≠ first := by
          rintro rfl
          exact hnodup.1 (List.mem_of_getElem? hname)
        rw [beq_false_of_ne hne]
        exact ih hnodup.2 (Nat.succ.inj hlength) hname

/-- A name that is no parameter is given nothing. -/
theorem lookup_zip_eq_none {α : Type} {parameters : List String} {arguments : List α}
    {name : String} (hname : name ∉ parameters) : (parameters.zip arguments).lookup name = none := by
  rw [List.lookup_eq_none_iff]
  rintro ⟨other, x⟩ hmem
  have hother := (List.of_mem_zip hmem).1
  rw [bne_iff_ne]
  rintro rfl
  exact hname hother

namespace Module

/-- The globals of a module are bound to what they are initialized with. -/
def Binds (m : Module) (globals : Bindings) : Prop :=
  ∀ name x, globals.lookup name = some x ↔
    ∃ id, m.lookup? name = some (.global id) ∧ m.initializer? id = some x

/-- An empty module binds nothing. -/
theorem binds_empty (name : String) : (empty name).Binds [] := by
  intro other x
  simp [empty, lookup?, SymbolTable.find?_empty]

variable {m after : Module} {globals : Bindings}

/-- What is bound stays so while neither names nor globals change. -/
theorem Binds.of_same (h : m.Binds globals)
    (hlookup : ∀ name id, after.lookup? name = some (.global id) ↔
      m.lookup? name = some (.global id))
    (hglobals : after.globals = m.globals) : after.Binds globals := by
  intro name x
  simp only [hlookup, initializer?, hglobals]
  exact h name x

/-- Adding an instruction leaves alone what is bound. -/
theorem Binds.append (h : m.Binds globals) {p : InsertPoint} {wanted : Option String}
    {action : Action} {value : Value} (hok : m.append p wanted action = .ok (value, after)) :
    after.Binds globals := by
  obtain ⟨_, _, _, _, _, _, rfl⟩ := append_eq_ok hok
  exact h.of_same (fun _ _ => Iff.rfl) rfl

/-- Alike modules bind the same. -/
theorem Binds.of_alike (h : m.Binds globals) (hlike : after.Alike m) : after.Binds globals :=
  h.of_same (fun name _ => by rw [hlike.lookup?_eq name]) hlike.globals_eq

/-- A name that is found for a global is bound. -/
theorem Binds.lookup_eq_some (h : m.Binds globals) (hm : m.Consistent) {name : String} {id : Nat}
    (hid : m.lookup? name = some (.global id)) :
    ∃ x, globals.lookup name = some x ∧ m.initializer? id = some x := by
  obtain ⟨x, hx⟩ := hm.exists_initializer hid
  exact ⟨x, (h name x).mpr ⟨id, hid, hx⟩, hx⟩

/-- A new global is bound to what it is initialized with. -/
theorem Binds.addGlobal (h : m.Binds globals) (hm : m.Consistent) {name : String}
    {initializer value : Value} {x : Float}
    (hok : m.addGlobal name initializer = .ok (value, after))
    (hinitial : m.initialValue name initializer = .ok x) :
    after.Binds ((name, x) :: globals) := by
  obtain ⟨y, hy, _, _, rfl⟩ := addGlobal_eq_ok hok
  rw [hinitial, Except.ok.injEq] at hy
  subst hy
  intro other y
  simp only [lookup?, SymbolTable.find?_insert_eq_some_iff, Symbol.global.injEq]
  by_cases hother : other = name
  · subst hother
    simp [initializer?, eq_comm]
  · rw [List.lookup_cons, beq_false_of_ne hother]
    rw [h other y]
    refine exists_congr fun id => ?_
    simp only [hother, false_and, not_false_eq_true, ne_eq, and_true, false_or]
    refine and_congr_right fun hid => ?_
    have hlt : id < m.globals.length := hm.lt_of_lookup? hid
    simp only [initializer?, List.getElem?_append_left hlt]

/-- Naming a function leaves alone what is bound. -/
theorem Binds.setName (h : m.Binds globals) (hm : m.Consistent) {name : String} {function : Nat}
    (hok : m.setName (.function function) name = .ok after) : after.Binds globals := by
  obtain ⟨symbol, hvalue, _, ⟨_, rfl⟩ | ⟨hfree, rfl⟩⟩ := setName_eq_ok hok
  · exact h
  · cases symbol with
    | global id => cases hvalue
    | function id =>
      exact h.of_same (fun other id' => hm.lookup?_rename_of_ne hfree nofun) rfl

end Module

end LambdaArith
