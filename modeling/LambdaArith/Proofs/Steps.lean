import LambdaArith.Proofs.Build
import LambdaArith.Proofs.Edits

/-!
# Steps of lowering that succeed

Each kind of work that expressions are lowered with has one lemma that says when it succeeds, with
which result, and what the builder is afterwards.
-/

namespace LambdaArith

/-- Whether a value is a constant, so that an operator on two of them is computed at once. -/
def Value.isConstant : Value → Bool
  | constant _ => true
  | _ => false

/-- The module after a function with one empty block has been added to it. -/
def Module.openFunction (m : Module) (parameters : List String) : Module :=
  { m with functions := m.functions ++ [(Func.declare parameters).appendBlock "entry"] }

/-- A function can always be added and given a block. -/
theorem Module.appendBlock_addFunction (m : Module) (parameters : List String) :
    (m.addFunction parameters).2.appendBlock m.functions.length "entry" =
      .ok (⟨m.functions.length, 0⟩, m.openFunction parameters) := by
  simp [Module.appendBlock, addFunction, openFunction, Func.declare]

namespace Builder

/-- The builder when an operation has changed the module, and an event says so. -/
def advance (b : Builder) (m : Module) (event : Event) : Builder :=
  { b with module := m, events := b.events ++ [event] }

/-- The module after it has been changed. -/
@[simp] theorem advance_module (b : Builder) (m : Module) (event : Event) :
    (b.advance m event).module = m :=
  rfl

/-- A change of the module leaves the insertion point where it is. -/
@[simp] theorem advance_point (b : Builder) (m : Module) (event : Event) :
    (b.advance m event).point = b.point :=
  rfl

/-- The builder at the beginning of a new function. -/
def enter (b : Builder) (parameters : List String) : Builder :=
  { b with
    module := b.module.openFunction parameters
    point := some ⟨b.module.functions.length, 0⟩ }

end Builder

namespace Build

/-- Asking for the insertion point succeeds if there is one. -/
theorem requirePoint_eq_ok {instruction : String} {b after : Builder} {p : InsertPoint} :
    requirePoint instruction b = (.ok p, after) ↔ b.point = some p ∧ after = b := by
  simp only [requirePoint, bind_apply, get]
  cases b.point with
  | none => simp [fail]
  | some q => simp [eq_comm]

/-- What is done at the insertion point after an event succeeds if there is one and it does so
there. -/
theorem atPoint_eq_ok {α : Type} {instruction : String} {event : InsertPoint → Event}
    {next : InsertPoint → Build α} {b after : Builder} {a : α} :
    (requirePoint instruction >>= fun p => record (event p) >>= fun _ => next p) b =
        (.ok a, after) ↔
      ∃ p, b.point = some p ∧
        next p { b with events := b.events ++ [event p] } = (.ok a, after) := by
  constructor
  · intro h
    obtain ⟨p, b₁, hp, hnext⟩ := bind_eq_ok.mp h
    obtain ⟨hpoint, rfl⟩ := requirePoint_eq_ok.mp hp
    exact ⟨p, hpoint, hnext⟩
  · rintro ⟨p, hpoint, h⟩
    refine bind_eq_ok.mpr ⟨p, b, requirePoint_eq_ok.mpr ⟨hpoint, rfl⟩, ?_⟩
    exact bind_eq_ok.mpr ⟨(), _, rfl, h⟩

/-- Applying an operator succeeds with a constant if both operands are constants, and with an
instruction if both are doubles and one is added at the insertion point. -/
theorem operation_eq_ok {op : Operator} {lhs rhs value : Value} {b after : Builder} :
    operation op lhs rhs b = (.ok value, after) ↔
      (∃ x y, lhs = .constant x ∧ rhs = .constant y ∧ value = .constant (op.apply x y) ∧
        after = b) ∨
      (lhs.isNumeric = true ∧ rhs.isNumeric = true ∧
        ¬ (lhs.isConstant = true ∧ rhs.isConstant = true) ∧
        ∃ p m, b.point = some p ∧
          b.module.append p (some op.resultName) (.compute op lhs rhs) = .ok (value, m) ∧
          after = b.advance m (.emittingOperation op p)) := by
  unfold operation
  split
  · rename_i hnumeric
    rw [Bool.and_eq_true] at hnumeric
    split
    · rename_i x y
      rw [pure_apply, Prod.mk.injEq, Except.ok.injEq]
      constructor
      · rintro ⟨rfl, rfl⟩
        exact .inl ⟨x, y, rfl, rfl, rfl, rfl⟩
      · rintro (⟨_, _, ⟨⟩, ⟨⟩, rfl, rfl⟩ | ⟨_, _, hnot, _⟩)
        · exact ⟨rfl, rfl⟩
        · exact absurd ⟨rfl, rfl⟩ hnot
    · rename_i hconstant
      have hnot : ¬ (lhs.isConstant = true ∧ rhs.isConstant = true) := by
        rintro ⟨hl, hr⟩
        cases lhs <;> cases hl
        cases rhs <;> cases hr
        exact hconstant _ _ rfl rfl
      constructor
      · intro h
        obtain ⟨p, hpoint, happly⟩ := atPoint_eq_ok.mp h
        obtain ⟨m, happend, rfl⟩ := apply_eq_ok.mp happly
        exact .inr ⟨hnumeric.1, hnumeric.2, hnot, p, m, hpoint, happend, rfl⟩
      · rintro (⟨x, y, rfl, rfl, _⟩ | ⟨_, _, _, p, m, hpoint, happend, rfl⟩)
        · exact absurd ⟨rfl, rfl⟩ hnot
        · exact atPoint_eq_ok.mpr ⟨p, hpoint, apply_eq_ok.mpr ⟨m, happend, rfl⟩⟩
  · rename_i hnumeric
    constructor
    · rintro ⟨⟩
    · rintro (⟨x, y, rfl, rfl, _⟩ | ⟨hl, hr, _⟩)
      · exact absurd rfl hnumeric
      · rw [hl, hr] at hnumeric
        exact absurd rfl hnumeric

/-- Returning succeeds with a double, if the instruction is added at the insertion point. -/
theorem ret_eq_ok {value : Value} {b after : Builder} {a : Unit} :
    ret value b = (.ok a, after) ↔
      value.isNumeric = true ∧ ∃ p result m, b.point = some p ∧
        b.module.append p none (.ret value) = .ok (result, m) ∧
        after = b.advance m (.emittingReturn p) := by
  unfold ret
  split
  · rename_i hnumeric
    constructor
    · intro h
      obtain ⟨p, hpoint, hrest⟩ := atPoint_eq_ok.mp h
      obtain ⟨result, b₃, happly, hpure⟩ := bind_eq_ok.mp hrest
      cases hpure
      obtain ⟨m, happend, rfl⟩ := apply_eq_ok.mp happly
      exact ⟨hnumeric, p, result, m, hpoint, happend, rfl⟩
    · rintro ⟨_, p, result, m, hpoint, happend, rfl⟩
      refine atPoint_eq_ok.mpr ⟨p, hpoint, ?_⟩
      exact bind_eq_ok.mpr ⟨result, _, apply_eq_ok.mpr ⟨m, happend, rfl⟩, rfl⟩
  · rename_i hnumeric
    constructor
    · rintro ⟨⟩
    · rintro ⟨hvalue, _⟩
      exact absurd hvalue hnumeric

/-- Looking up an identifier succeeds if it is found, and changes nothing. -/
theorem resolve_eq_ok {name : String} {b after : Builder} {value : Value} :
    resolve name b = (.ok value, after) ↔
      ∃ resolution, b.module.resolve (b.point.map InsertPoint.function) name = some resolution ∧
        value = resolution.value ∧ after = b := by
  simp only [resolve, bind_apply, get]
  cases b.module.resolve (b.point.map InsertPoint.function) name with
  | none => simp [fail]
  | some resolution => simp [eq_comm]

/-- Defining a name succeeds with a function if it can be named, and with a new global if one
can be added. -/
theorem define_eq_ok {name : String} {value result : Value} {b after : Builder} :
    define name value b = (.ok result, after) ↔
      (b.module.isFunction value = true ∧ ∃ m, b.module.setName value name = .ok m ∧
        result = value ∧ after = b.advance m (.definedFunction name)) ∨
      (b.module.isFunction value = false ∧ ∃ m, b.module.addGlobal name value = .ok (result, m) ∧
        after = b.advance m (.definedGlobal name)) := by
  have hget : define name value b = (if b.module.isFunction value then do
      apply fun m => (m.setName value name).map fun m => ((), m)
      record (.definedFunction name)
      return value
    else do
      let global ← apply fun m => m.addGlobal name value
      record (.definedGlobal name)
      return global : Build Value) b := rfl
  rw [hget]
  split
  · rename_i hfunction
    simp only [hfunction, true_and, Bool.true_eq_false, false_and, or_false]
    constructor
    · intro h
      obtain ⟨_, b₁, happly, h⟩ := bind_eq_ok.mp h
      obtain ⟨m, hmap, rfl⟩ := apply_eq_ok.mp happly
      cases h
      exact ⟨m, Module.setName_of_map hmap, rfl, rfl⟩
    · rintro ⟨m, hname, rfl, rfl⟩
      exact bind_eq_ok.mpr ⟨(), _, apply_eq_ok.mpr ⟨m, by rw [hname]; rfl, rfl⟩, rfl⟩
  · rename_i hfunction
    simp only [hfunction, Bool.false_eq_true, false_and, true_and, false_or]
    constructor
    · intro h
      obtain ⟨global, b₁, happly, h⟩ := bind_eq_ok.mp h
      obtain ⟨m, hadd, rfl⟩ := apply_eq_ok.mp happly
      cases h
      exact ⟨m, hadd, rfl⟩
    · rintro ⟨m, hadd, rfl⟩
      exact bind_eq_ok.mpr ⟨result, _, apply_eq_ok.mpr ⟨m, hadd, rfl⟩, rfl⟩

/-- Making a function whose parameters are not repeated is working on its body at its beginning,
returning what that comes to, and going back. -/
theorem lambda_apply {parameters : List String} (hdistinct : firstRepeated [] parameters = none)
    (body : Build Value) (b : Builder) :
    lambda parameters body b =
      let (result, after) := (do
        let result ← body
        ret result
        return .function b.module.functions.length : Build Value) (b.enter parameters)
      (result, { after with point := b.point }) := by
  have hadd : (b.module.addFunction parameters).1 = b.module.functions.length := rfl
  simp only [lambda, hdistinct, bind_apply, apply, hadd, Module.appendBlock_addFunction]
  rfl

/-- Making a function succeeds if no parameter is repeated, and its body succeeds at the
beginning of the new function with a double that can be returned. -/
theorem lambda_eq_ok {parameters : List String} {body : Build Value} {value : Value}
    {b after : Builder} :
    lambda parameters body b = (.ok value, after) ↔
      firstRepeated [] parameters = none ∧
      ∃ result b₁ b₂, body (b.enter parameters) = (.ok result, b₁) ∧
        ret result b₁ = (.ok (), b₂) ∧ value = .function b.module.functions.length ∧
        after = { b₂ with point := b.point } := by
  cases hdistinct : firstRepeated [] parameters with
  | some name => simp [lambda, hdistinct, fail]
  | none =>
    rw [lambda_apply hdistinct]
    simp only [true_and]
    constructor
    · intro h
      rw [Prod.mk.injEq] at h
      obtain ⟨hresult, rfl⟩ := h
      obtain ⟨result, b₁, hbody, h⟩ := bind_eq_ok.mp (Prod.ext hresult rfl)
      obtain ⟨_, b₂, hret, h⟩ := bind_eq_ok.mp h
      rw [pure_apply, Prod.mk.injEq, Except.ok.injEq] at h
      exact ⟨result, b₁, b₂, hbody, hret, h.1.symm, by rw [h.2]⟩
    · rintro ⟨result, b₁, b₂, hbody, hret, rfl, rfl⟩
      simp only [bind_apply, hbody, hret, pure_apply]

end Build

end LambdaArith
