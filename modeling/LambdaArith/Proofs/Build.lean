import LambdaArith.Lowering

/-!
# Reasoning about work on a builder

Work on a builder is made of a few kinds of steps. What all work of a kind does to builders
follows from what the steps do: `Build.Keeps` is about an invariant that holds after a failure
as well, and `Build.bind_eq_ok` takes apart work that has succeeded.
-/

namespace LambdaArith

namespace Build

variable {α β : Type}

/-- Work after other work, written out. -/
theorem bind_apply (work : Build α) (next : α → Build β) (b : Builder) :
    (work >>= next) b = match work b with
      | (.ok a, after) => next a after
      | (.error error, after) => (.error error, after) :=
  rfl

/-- Work without any step succeeds at once. -/
@[simp] theorem pure_apply (a : α) (b : Builder) : (pure a : Build α) b = (.ok a, b) := rfl

/-- Work after other work succeeds exactly when both do. -/
theorem bind_eq_ok {work : Build α} {next : α → Build β} {b after : Builder} {y : β} :
    (work >>= next) b = (.ok y, after) ↔
      ∃ x middle, work b = (.ok x, middle) ∧ next x middle = (.ok y, after) := by
  rw [bind_apply]
  split
  · rename_i x middle hwork
    simp only [hwork, Prod.mk.injEq, Except.ok.injEq]
    constructor
    · exact fun h => ⟨x, middle, ⟨rfl, rfl⟩, h⟩
    · rintro ⟨_, _, ⟨rfl, rfl⟩, h⟩
      exact h
  · rename_i error middle hwork
    simp [hwork]

/-- An operation of the backend succeeds as work exactly when it is not refused. -/
theorem apply_eq_ok {operation : Module → Except BackendError (α × Module)} {b after : Builder}
    {a : α} :
    apply operation b = (.ok a, after) ↔
      ∃ m, operation b.module = .ok (a, m) ∧ after = { b with module := m } := by
  unfold apply
  split
  · rename_i x m hoperation
    simp only [hoperation, Prod.mk.injEq, Except.ok.injEq]
    constructor
    · rintro ⟨rfl, rfl⟩
      exact ⟨m, ⟨rfl, rfl⟩, rfl⟩
    · rintro ⟨_, ⟨rfl, rfl⟩, rfl⟩
      exact ⟨rfl, rfl⟩
  · rename_i error hoperation
    simp [hoperation]

/-- Work keeps an invariant of builders, whether it fails or not, and what it gives when it
succeeds fulfils a condition. -/
def Keeps (I : Builder → Prop) (Q : α → Prop) (work : Build α) : Prop :=
  ∀ b, I b → I (work b).2 ∧ ∀ a, (work b).1 = .ok a → Q a

variable {I : Builder → Prop} {Q : α → Prop} {R : β → Prop}

/-- Work without any step keeps everything. -/
theorem Keeps.pure {a : α} (ha : Q a) : Keeps I Q (Pure.pure a) := by
  intro b hb
  refine ⟨hb, ?_⟩
  rintro _ ⟨⟩
  exact ha

/-- Failing keeps everything. -/
theorem Keeps.fail (error : LoweringError) : Keeps I Q (Build.fail error) :=
  fun _ hb => ⟨hb, nofun⟩

/-- Work after other work keeps what both keep. -/
theorem Keeps.bind {work : Build α} {next : α → Build β} (hwork : Keeps I Q work)
    (hnext : ∀ a, Q a → Keeps I R (next a)) : Keeps I R (work >>= next) := by
  intro b hb
  obtain ⟨hmiddle, hvalue⟩ := hwork b hb
  rw [bind_apply]
  split
  · rename_i a after hok
    rw [hok] at hmiddle hvalue
    exact hnext a (hvalue a rfl) after hmiddle
  · rename_i error after herror
    rw [herror] at hmiddle
    exact ⟨hmiddle, nofun⟩

/-- Looking at the builder gives one that fulfils the invariant. -/
theorem Keeps.get : Keeps I I Build.get := by
  intro b hb
  refine ⟨hb, ?_⟩
  rintro _ ⟨⟩
  exact hb

/-- Recording an event keeps what does not depend on the events. -/
theorem Keeps.record (event : Event)
    (h : ∀ b, I b → I { b with events := b.events ++ [event] }) :
    Keeps I (fun _ => True) (Build.record event) :=
  fun b hb => ⟨h b hb, fun _ _ => trivial⟩

/-- An operation of the backend keeps what it keeps when it is not refused. -/
theorem Keeps.apply {operation : Module → Except BackendError (α × Module)}
    (h : ∀ b a m, I b → operation b.module = .ok (a, m) → I { b with module := m } ∧ Q a) :
    Keeps I Q (Build.apply operation) := by
  intro b hb
  unfold Build.apply
  split
  · rename_i a m hoperation
    obtain ⟨hafter, ha⟩ := h b a m hb hoperation
    refine ⟨hafter, ?_⟩
    rintro _ ⟨⟩
    exact ha
  · exact ⟨hb, nofun⟩

/-- Work with less to say about its value. -/
theorem Keeps.weaken {work : Build α} {Q' : α → Prop} (hwork : Keeps I Q work)
    (h : ∀ a, Q a → Q' a) : Keeps I Q' work :=
  fun b hb => ⟨(hwork b hb).1, fun a ha => h a ((hwork b hb).2 a ha)⟩

end Build

end LambdaArith
