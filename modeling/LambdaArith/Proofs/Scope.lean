import LambdaArith.Lowering

/-!
# What identifiers stand for

A name in a function stands for the parameter with this name, if there is one, and otherwise
for the global with this name. It never stands for a function.
-/

namespace LambdaArith

namespace Module

/-- The names of the parameters of a function; none, if there is no function. -/
def parameterNames (m : Module) (function : Option Nat) : List String :=
  match function with
  | none => []
  | some id =>
    match m.functions[id]? with
    | none => []
    | some f => f.parameters

/-- The parameters that `resolve` looks through, by their names and indices. -/
private theorem find?_parameters (id : Nat) (names : List String) (start : Nat) (name : String) :
    ((names.zipIdx start).map fun (other, index) => (other, Value.parameter id index)).find?
        (fun parameter => parameter.1 = name) =
      (names.findIdx? fun other => other = name).map fun index =>
        (name, .parameter id (start + index)) := by
  induction names generalizing start with
  | nil => rfl
  | cons other rest ih =>
    rw [List.zipIdx_cons, List.map_cons, List.find?_cons, List.findIdx?_cons]
    by_cases h : other = name
    · simp [h]
    · simp only [h, decide_false, Bool.false_eq_true, if_false]
      rw [ih, Option.map_map]
      refine congrArg (Option.map · _) (funext fun index => ?_)
      simp only [Function.comp, Prod.mk.injEq, Value.parameter.injEq, true_and]
      omega

/-- What a name stands for, by the index of the parameter with this name. -/
theorem resolve_eq (m : Module) (function : Option Nat) (name : String) :
    m.resolve function name =
      match function, (m.parameterNames function).findIdx? fun other => other = name with
      | some id, some index => some (.parameter (.parameter id index))
      | _, _ => (m.global? name).map .global := by
  cases function with
  | none => rfl
  | some id =>
    simp only [resolve, parameters, parameterNames]
    cases m.functions[id]? with
    | none => rfl
    | some f =>
      simp only [find?_parameters id f.parameters 0 name]
      cases f.parameters.findIdx? fun other => decide (other = name) with
      | none => rfl
      | some index => simp only [Option.map_some, Nat.zero_add]

/-- A name that is no parameter stands for a global. -/
theorem resolve_of_not_mem {m : Module} {function : Option Nat} {name : String}
    (h : name ∉ m.parameterNames function) :
    m.resolve function name = (m.global? name).map .global := by
  have hindex : ((m.parameterNames function).findIdx? fun other => other = name) = none := by
    rw [List.findIdx?_eq_none_iff]
    intro other hother
    exact decide_eq_false fun heq => h (heq ▸ hother)
  rw [resolve_eq, hindex]
  cases function <;> rfl

/-- A name of a parameter stands for it. -/
theorem resolve_of_mem {m : Module} {function : Option Nat} {name : String}
    (h : name ∈ m.parameterNames function) :
    ∃ id index, function = some id ∧ (m.parameterNames function)[index]? = some name ∧
      m.resolve function name = some (.parameter (.parameter id index)) := by
  cases function with
  | none => cases h
  | some id =>
    cases hindex : (m.parameterNames (some id)).findIdx? fun other => other = name with
    | none =>
      rw [List.findIdx?_eq_none_iff] at hindex
      exact absurd rfl (of_decide_eq_false (hindex name h))
    | some index =>
      refine ⟨id, index, rfl, ?_, by rw [resolve_eq, hindex]⟩
      obtain ⟨hlt, heq, _⟩ := List.findIdx?_eq_some_iff_getElem.mp hindex
      rw [List.getElem?_eq_getElem hlt, of_decide_eq_true heq]

/-- Where no two parameters have one name, the name of a parameter stands for it. -/
theorem resolve_of_getElem? {m : Module} {id index : Nat} {name : String}
    (hnodup : (m.parameterNames (some id)).Nodup)
    (hname : (m.parameterNames (some id))[index]? = some name) :
    m.resolve (some id) name = some (.parameter (.parameter id index)) := by
  obtain ⟨_, first, ⟨⟩, hfirst, hresolve⟩ := resolve_of_mem (List.mem_of_getElem? hname)
  have hlt := (List.getElem?_eq_some_iff.mp hname).1
  rw [hresolve, (List.getElem?_inj hlt hnodup).mp (hname.trans hfirst.symm)]

/-- What is found under the name of a global. -/
theorem global?_eq_some_iff {m : Module} {name : String} {value : Value} :
    m.global? name = some value ↔
      ∃ id, m.lookup? name = some (.global id) ∧ value = .global id := by
  unfold global?
  split
  · rename_i id hid
    simp only [hid, Option.some.injEq, Symbol.global.injEq]
    exact ⟨fun h => ⟨id, rfl, h.symm⟩, fun ⟨_, hid', hvalue⟩ => by rw [hvalue, hid']⟩
  · rename_i hno
    exact ⟨nofun, fun ⟨id, hid, _⟩ => absurd hid (hno id)⟩

/-- A name stands for a parameter or a global, with its place. -/
theorem resolve_eq_some {m : Module} {function : Option Nat} {name : String}
    {resolution : Resolution} (h : m.resolve function name = some resolution) :
    (∃ id index, function = some id ∧ (m.parameterNames function)[index]? = some name ∧
        resolution = .parameter (.parameter id index)) ∨
      (name ∉ m.parameterNames function ∧ ∃ id, m.lookup? name = some (.global id) ∧
        resolution = .global (.global id)) := by
  by_cases hmem : name ∈ m.parameterNames function
  · obtain ⟨id, index, hfunction, hindex, hresolve⟩ := resolve_of_mem hmem
    rw [hresolve, Option.some.injEq] at h
    exact .inl ⟨id, index, hfunction, hindex, h.symm⟩
  · rw [resolve_of_not_mem hmem, Option.map_eq_some_iff] at h
    obtain ⟨value, hvalue, rfl⟩ := h
    obtain ⟨id, hid, rfl⟩ := global?_eq_some_iff.mp hvalue
    exact .inr ⟨hmem, id, hid, rfl⟩

/-- A name never stands for a function. -/
theorem isNumeric_of_resolve {m : Module} {function : Option Nat} {name : String}
    {resolution : Resolution} (h : m.resolve function name = some resolution) :
    resolution.value.isNumeric = true := by
  rcases resolve_eq_some h with ⟨_, _, _, _, rfl⟩ | ⟨_, _, _, rfl⟩
  · rfl
  · rfl

end Module

end LambdaArith
