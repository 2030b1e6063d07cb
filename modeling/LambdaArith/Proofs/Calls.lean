import LambdaArith.Proofs.Framed
import LambdaArith.Proofs.Respects
import LambdaArith.Session

/-!
# What becomes of a module when a session is asked

A program that cannot be lowered may fail anywhere, after globals and functions have been added
and names given. Taking the module back to the checkpoint undoes all of this, as nothing older
has been touched. So an answer either extends the module or leaves it alike.
-/

namespace LambdaArith

/-- Something that is asked of a session: to compile a source, or to lower expressions. -/
inductive Call where
  | compile (source : String)
  | lowerAll (exprs : List Expr)

namespace Module

/-- The answer to a call, and the module after it. -/
def answer (m : Module) : Call → Except Error (List Value) × Module
  | .compile source => ((m.compile source).result, (m.compile source).module)
  | .lowerAll exprs => ((m.lowerAll exprs).result.mapError .lowering, (m.lowerAll exprs).module)

/-- The answers to calls in order, and the module after them. -/
def answers (m : Module) : List Call → List (Except Error (List Value)) × Module
  | [] => ([], m)
  | call :: rest =>
    let later := (m.answer call).2.answers rest
    ((m.answer call).1 :: later.1, later.2)

/-- When functions have only been added, the first ones are those that have been there. -/
theorem Frame.functions_prefix {base m : Module} (h : base.Frame none m) :
    base.functions <+: m.functions := by
  rw [List.prefix_iff_eq_take]
  apply List.ext_getElem?
  intro id
  rw [List.getElem?_take]
  split
  · rename_i hlt
    obtain ⟨g, hg, hgrown⟩ := h.function_grown id _ (List.getElem?_eq_getElem hlt)
    rw [hg, List.getElem?_eq_getElem hlt, hgrown.eq_of_none]
  · rename_i hle
    exact List.getElem?_eq_none (Nat.not_lt.mp hle)

/-- Going back to the checkpoint of a module undoes what has been added to it. -/
theorem Frame.rollback_alike {base m : Module} (h : base.Frame none m) (hbase : base.Consistent) :
    (m.rollback base.checkpoint).Alike base where
  name_eq := h.name_eq
  target_eq := h.target_eq
  globals_eq := (List.prefix_iff_eq_take.mp h.globals_prefix).symm
  functions_eq := (List.prefix_iff_eq_take.mp h.functions_prefix).symm
  lookup?_eq := fun name => by
    apply Option.ext
    intro symbol
    rw [lookup?_rollback_eq_some_iff]
    constructor
    · rintro ⟨hlookup, hcovers⟩
      exact (h.lookup?_iff name symbol hcovers).mp hlookup
    · intro hlookup
      have hcovers := hbase.covers_of_lookup? hlookup
      exact ⟨(h.lookup?_iff name symbol hcovers).mpr hlookup, hcovers⟩

/-- The builder that a program is lowered with has only added to the module, whether that
succeeds or fails. -/
theorem Consistent.framed_lowerEach {m : Module} (hm : m.Consistent) (exprs : List Expr) :
    Builder.Framed m none (Expr.lowerEach exprs (Builder.ofModule m)).2 := by
  have hstart : Builder.Framed m none (Builder.ofModule m) := ⟨hm, Frame.refl m none, .inl rfl⟩
  exact (Expr.lowerEach_keeps_framed exprs _ hstart).1

/-- What becomes of a module into which a program is lowered: it is extended if that succeeds,
and like before if it fails. -/
theorem Consistent.lowerAll {m : Module} (hm : m.Consistent) (exprs : List Expr) :
    (∃ values, (m.lowerAll exprs).result = .ok values ∧ m.Frame none (m.lowerAll exprs).module ∧
        (m.lowerAll exprs).module.Consistent) ∨
      ∃ error, (m.lowerAll exprs).result = .error error ∧ (m.lowerAll exprs).module.Alike m ∧
        (m.lowerAll exprs).module.Consistent := by
  have hframed := hm.framed_lowerEach exprs
  unfold Module.lowerAll
  split
  · rename_i values b heq
    rw [heq] at hframed
    exact .inl ⟨values, rfl, hframed.frame, hframed.consistent⟩
  · rename_i error b heq
    rw [heq] at hframed
    exact .inr ⟨error, rfl, hframed.frame.rollback_alike hm, hframed.consistent.rollback _⟩

/-- Compiling is lowering what has been read; before that, nothing happens to the module. -/
theorem compile_cases (m : Module) (source : String) :
    (∃ error, (m.compile source).result = .error error ∧ (m.compile source).module = m ∧
        parseSource source = .error error) ∨
      ∃ exprs, parseSource source = .ok exprs ∧
        (m.compile source).result = (m.lowerAll exprs).result.mapError .lowering ∧
        (m.compile source).module = (m.lowerAll exprs).module := by
  unfold compile parseSource
  cases Token.ofSource source with
  | error error => exact .inl ⟨_, rfl, rfl, rfl⟩
  | ok tokens =>
    cases hparse : parseProgram tokens with
    | error error =>
      simp only [hparse]
      exact .inl ⟨_, rfl, trivial, rfl⟩
    | ok exprs =>
      simp only [hparse]
      exact .inr ⟨exprs, rfl, rfl, rfl⟩

/-- An answer to a call is what reading or lowering has come to. -/
theorem Consistent.answer {m : Module} (hm : m.Consistent) (call : Call) :
    (∃ values, (m.answer call).1 = .ok values ∧ m.Frame none (m.answer call).2 ∧
        (m.answer call).2.Consistent) ∨
      ∃ error, (m.answer call).1 = .error error ∧ (m.answer call).2.Alike m ∧
        (m.answer call).2.Consistent := by
  cases call with
  | lowerAll exprs =>
    simp only [Module.answer]
    rcases hm.lowerAll exprs with ⟨values, hresult, hafter⟩ | ⟨error, hresult, hafter⟩
    · exact .inl ⟨values, by rw [hresult]; rfl, hafter⟩
    · exact .inr ⟨.lowering error, by rw [hresult]; rfl, hafter⟩
  | compile source =>
    simp only [Module.answer]
    rcases m.compile_cases source with ⟨error, hresult, hmodule, _⟩ | ⟨exprs, _, hresult, hmodule⟩
    · exact .inr ⟨error, hresult, by rw [hmodule]; exact .refl m, by rw [hmodule]; exact hm⟩
    · rw [hresult, hmodule]
      rcases hm.lowerAll exprs with ⟨values, hlower, hafter⟩ | ⟨error, hlower, hafter⟩
      · exact .inl ⟨values, by rw [hlower]; rfl, hafter⟩
      · exact .inr ⟨.lowering error, by rw [hlower]; rfl, hafter⟩

/-- Calls keep a module consistent. -/
theorem Consistent.answers {m : Module} (hm : m.Consistent) (calls : List Call) :
    (m.answers calls).2.Consistent := by
  induction calls generalizing m with
  | nil => exact hm
  | cons call rest ih =>
    rcases hm.answer call with ⟨_, _, _, hafter⟩ | ⟨_, _, _, hafter⟩
    · exact ih hafter
    · exact ih hafter

/-- Alike modules give the same answer to lowering, and are alike afterwards. -/
theorem Alike.lowerAll {m n : Module} (h : m.Alike n) (exprs : List Expr) :
    (m.lowerAll exprs).result = (n.lowerAll exprs).result ∧
      (m.lowerAll exprs).module.Alike (n.lowerAll exprs).module := by
  obtain ⟨hresult, hafter⟩ := Expr.lowerEach_respects exprs (Builder.ofModule m)
    (Builder.ofModule n) ⟨h, rfl⟩
  unfold Module.lowerAll
  revert hresult hafter
  rcases Expr.lowerEach exprs (Builder.ofModule m) with ⟨error | values, b⟩ <;>
    rcases Expr.lowerEach exprs (Builder.ofModule n) with ⟨error' | values', c⟩
  · rintro ⟨⟩ hafter
    refine ⟨rfl, ?_⟩
    rw [h.checkpoint_eq]
    exact hafter.module_alike.rollback _
  · rintro ⟨⟩
  · rintro ⟨⟩
  · rintro ⟨⟩ hafter
    exact ⟨rfl, hafter.module_alike⟩

/-- Alike modules give the same answer to a call, and are alike afterwards. -/
theorem Alike.answer {m n : Module} (h : m.Alike n) (call : Call) :
    (m.answer call).1 = (n.answer call).1 ∧ (m.answer call).2.Alike (n.answer call).2 := by
  cases call with
  | lowerAll exprs =>
    obtain ⟨hresult, hafter⟩ := h.lowerAll exprs
    exact ⟨congrArg (Except.mapError Error.lowering) hresult, hafter⟩
  | compile source =>
    simp only [Module.answer]
    rcases m.compile_cases source with ⟨error, hm, hmm, hparse⟩ | ⟨exprs, hparse, hm, hmm⟩ <;>
      rcases n.compile_cases source with ⟨error', hn, hnm, hparse'⟩ | ⟨exprs', hparse', hn, hnm⟩ <;>
      rw [hparse] at hparse' <;> cases hparse'
    · rw [hm, hn, hmm, hnm]
      exact ⟨rfl, h⟩
    · obtain ⟨hresult, hafter⟩ := h.lowerAll exprs
      rw [hm, hn, hmm, hnm, hresult]
      exact ⟨rfl, hafter⟩

/-- Alike modules give the same answers to calls in order, and are alike afterwards. -/
theorem Alike.answers {m n : Module} (h : m.Alike n) (calls : List Call) :
    (m.answers calls).1 = (n.answers calls).1 ∧ (m.answers calls).2.Alike (n.answers calls).2 := by
  induction calls generalizing m n with
  | nil => exact ⟨rfl, h⟩
  | cons call rest ih =>
    obtain ⟨hresult, hafter⟩ := h.answer call
    obtain ⟨hresults, hlast⟩ := ih hafter
    simp only [Module.answers, hresult, hresults, true_and]
    exact hlast

end Module

end LambdaArith
