import LambdaArith.Proofs.Realization

/-!
# Sessions preserve meaning

Programs are compiled into a module one after another. Each that succeeds is realized with the
globals that the earlier ones have bound, and stays realized whatever is compiled later and
whether that succeeds or fails.
-/

namespace LambdaArith

/-- The expressions that are lowered for a call. -/
def Call.exprs : Call → Except Error (List Expr)
  | compile source => parseSource source
  | lowerAll exprs => .ok exprs

/-- A program that is lowered outside of functions is realized by its values. -/
theorem Expr.lowerEach_realizes {exprs : List Expr} {b after : Builder} {values : List Value}
    (h : lowerEach exprs b = (.ok values, after)) (hpoint : b.point = none)
    (hm : b.module.Consistent) {before : Bindings} (hbefore : b.module.Binds before) :
    after.module.Binds (globalsAfter exprs before) ∧
      after.module.RealizesEach before exprs values := by
  induction exprs generalizing b before values with
  | nil =>
    cases h
    exact ⟨hbefore, trivial⟩
  | cons e rest ih =>
    obtain ⟨value, b₁, hfirst, h⟩ := Build.bind_eq_ok.mp h
    obtain ⟨others, b₂, hrest, hpure⟩ := Build.bind_eq_ok.mp h
    cases hpure
    rw [lowerTopLevel_eq] at hfirst
    have hlowers := Lowers.of_lower hfirst
    have hm₁ := hlowers.consistent hm
    have hpoint₁ : b₁.point = none := hlowers.point_eq.trans hpoint
    obtain ⟨hbound, hrealizes⟩ := hlowers.realizes hpoint hm hbefore
    obtain ⟨hafter, hothers⟩ := ih hrest hpoint₁ hm₁ hbound
    have hstart : Builder.Framed b₁.module none b₁ := ⟨hm₁, .refl b₁.module none, .inl hpoint₁⟩
    have hframe := (lowerEach_keeps_framed rest b₁ hstart).1.frame
    rw [hrest] at hframe
    exact ⟨hafter, hrealizes.mono hframe.globals_prefix hframe.functions_prefix, hothers⟩

namespace Module

variable {m : Module}

/-- The globals that are bound after calls: those calls that succeed bind what their expressions
do. -/
def boundAfter (m : Module) (before : Bindings) : List Call → Bindings
  | [] => before
  | call :: rest =>
    let bound := match (m.answer call).1, call.exprs with
      | .ok _, .ok exprs => Expr.globalsAfter exprs before
      | _, _ => before
    (m.answer call).2.boundAfter bound rest

/-- A call that succeeds has lowered the expressions that it is for. -/
theorem answer_eq_ok {call : Call} {values : List Value} (h : (m.answer call).1 = .ok values) :
    ∃ exprs b, call.exprs = .ok exprs ∧
      Expr.lowerEach exprs (Builder.ofModule m) = (.ok values, b) ∧
      (m.answer call).2 = b.module := by
  have hlowerAll : ∀ exprs, (m.lowerAll exprs).result.mapError Error.lowering = .ok values →
      ∃ b, Expr.lowerEach exprs (Builder.ofModule m) = (.ok values, b) ∧
        (m.lowerAll exprs).module = b.module := by
    intro exprs hok
    unfold Module.lowerAll at hok ⊢
    split at hok
    · rename_i b heq
      cases hok
      exact ⟨b, heq, rfl⟩
    · cases hok
  cases call with
  | lowerAll exprs =>
    obtain ⟨b, hlower, hmodule⟩ := hlowerAll exprs h
    exact ⟨exprs, b, rfl, hlower, hmodule⟩
  | compile source =>
    simp only [answer] at h ⊢
    rcases m.compile_cases source with ⟨error, hresult, _⟩ | ⟨exprs, hparse, hresult, hmodule⟩
    · rw [hresult] at h
      cases h
    · rw [hresult] at h
      obtain ⟨b, hlower, hmodule'⟩ := hlowerAll exprs h
      exact ⟨exprs, b, hparse, hlower, hmodule.trans hmodule'⟩

/-- A call that succeeds realizes the expressions that it is for. -/
theorem Consistent.answer_realizes (hm : m.Consistent) {before : Bindings}
    (hbefore : m.Binds before) {call : Call} {values : List Value}
    (h : (m.answer call).1 = .ok values) :
    ∃ exprs, call.exprs = .ok exprs ∧ (m.answer call).2.Binds (Expr.globalsAfter exprs before) ∧
      (m.answer call).2.RealizesEach before exprs values := by
  obtain ⟨exprs, b, hexprs, hlower, hmodule⟩ := answer_eq_ok h
  rw [hmodule]
  exact ⟨exprs, hexprs, Expr.lowerEach_realizes hlower rfl hm hbefore⟩

/-- What is bound after calls is bound in the module after them. -/
theorem Consistent.binds_boundAfter (hm : m.Consistent) {before : Bindings}
    (hbefore : m.Binds before) (calls : List Call) :
    (m.answers calls).2.Binds (m.boundAfter before calls) := by
  induction calls generalizing m before with
  | nil => exact hbefore
  | cons call rest ih =>
    rcases hm.answer call with ⟨values, hok, _, hafter⟩ | ⟨error, herror, hlike, hafter⟩
    · obtain ⟨exprs, hexprs, hbound, _⟩ := hm.answer_realizes hbefore hok
      simp only [boundAfter, hok, hexprs]
      exact ih hafter hbound
    · simp only [boundAfter, herror]
      exact ih hafter (hbefore.of_alike hlike)

/-- Calls only add globals and functions. -/
theorem Consistent.answers_extend (hm : m.Consistent) (calls : List Call) :
    m.globals <+: (m.answers calls).2.globals ∧ m.functions <+: (m.answers calls).2.functions := by
  induction calls generalizing m with
  | nil => exact ⟨List.prefix_rfl, List.prefix_rfl⟩
  | cons call rest ih =>
    rcases hm.answer call with ⟨_, _, hframe, hafter⟩ | ⟨_, _, hlike, hafter⟩
    · obtain ⟨hglobals, hfunctions⟩ := ih hafter
      exact ⟨hframe.globals_prefix.trans hglobals, hframe.functions_prefix.trans hfunctions⟩
    · have hextend := ih hafter
      rw [hlike.globals_eq, hlike.functions_eq] at hextend
      exact hextend

/-- Calls in two portions are calls one after the other. -/
theorem answers_append (earlier later : List Call) :
    (m.answers (earlier ++ later)).2 = ((m.answers earlier).2.answers later).2 := by
  induction earlier generalizing m with
  | nil => rfl
  | cons call rest ih => exact ih

/-- Whatever has been asked of a session before and is asked later: the values that a call gives
realize its expressions in the end, with the globals that have been bound before it. -/
theorem calls_preserve_meaning (name : String) (earlier : List Call) (call : Call)
    (later : List Call) {values : List Value}
    (h : (((empty name).answers earlier).2.answer call).1 = .ok values) :
    ∃ exprs, call.exprs = .ok exprs ∧
      ((empty name).answers (earlier ++ call :: later)).2.RealizesEach
        ((empty name).boundAfter [] earlier) exprs values := by
  have hm := (consistent_empty name).answers earlier
  have hbefore := (consistent_empty name).binds_boundAfter (binds_empty name) earlier
  obtain ⟨exprs, hexprs, _, hrealizes⟩ := hm.answer_realizes hbefore h
  refine ⟨exprs, hexprs, ?_⟩
  rw [answers_append]
  have hafter : (((empty name).answers earlier).2.answer call).2.Consistent := hm.answers [call]
  obtain ⟨hglobals, hfunctions⟩ := hafter.answers_extend later
  exact hrealizes.mono hglobals hfunctions

/-- A function that multiplies by a global, compiled between other sources. -/
theorem calls_preserve_meaning_scaling :
    ∃ exprs, (Call.compile "(lambda (y) (* x y))").exprs = .ok exprs ∧
      ((empty "m").answers [.compile "(define x 2)", .compile "(lambda (y) (* x y))",
        .compile "(define x 3)", .compile "(define y x)"]).2.RealizesEach
        ((empty "m").boundAfter [] [.compile "(define x 2)"]) exprs [.function 0] := by
  have hcompiles : (((empty "m").answers [.compile "(define x 2)"]).2.answer
      (.compile "(lambda (y) (* x y))")).1 = .ok [.function 0] := by
    decide +kernel
  exact calls_preserve_meaning "m" [.compile "(define x 2)"] (.compile "(lambda (y) (* x y))")
    [.compile "(define x 3)", .compile "(define y x)"] hcompiles

end Module

end LambdaArith
