import LambdaArith.Proofs.Placed
import LambdaArith.Proofs.ProgramsJoined
import LambdaArith.Proofs.Request
import LambdaArith.Proofs.RoundTrip

/-!
# Inputs that follow each other

One input with a blank in it that ends an expression has the effect of the two inputs in front of
and behind the blank, as long as the first one succeeds. If the second one fails, the whole input
fails in the same way, and nothing of the first one is left.
-/

namespace LambdaArith

/-- Lowering a program and then another one is lowering both together. -/
theorem Expr.lowerEach_append {exprs : List Expr} {b after : Builder} {values : List Value}
    (h : lowerEach exprs b = (.ok values, after)) (more : List Expr) :
    lowerEach (exprs ++ more) b =
      ((lowerEach more after).1.map (values ++ ·), (lowerEach more after).2) := by
  induction exprs generalizing b values with
  | nil =>
    cases h
    rw [List.nil_append]
    rcases lowerEach more after with ⟨_ | _, _⟩
    · rfl
    · rfl
  | cons e rest ih =>
    obtain ⟨value, b₁, hfirst, h⟩ := Build.bind_eq_ok.mp h
    obtain ⟨others, b₂, hrest, hpure⟩ := Build.bind_eq_ok.mp h
    cases hpure
    rw [List.cons_append, lowerEach, Build.bind_apply, hfirst]
    dsimp only
    rw [Build.bind_apply, ih hrest]
    rcases lowerEach more after with ⟨_ | _, _⟩
    · rfl
    · rfl

/-- Lowering a program comes back to the insertion point if there has been none. -/
theorem Expr.point_of_lowerEach {exprs : List Expr} {b after : Builder} {values : List Value}
    (h : lowerEach exprs b = (.ok values, after)) : after.point = b.point := by
  induction exprs generalizing b values with
  | nil =>
    cases h
    rfl
  | cons e rest ih =>
    obtain ⟨value, b₁, hfirst, h⟩ := Build.bind_eq_ok.mp h
    obtain ⟨others, b₂, hrest, hpure⟩ := Build.bind_eq_ok.mp h
    cases hpure
    rw [lowerTopLevel_eq] at hfirst
    rw [ih hrest, (Lowers.of_lower hfirst).point_eq]

namespace Module

variable {m : Module} {source : String} {exprs : List Expr} {values : List Value}

/-- A source that cannot be read leaves the module alone. -/
theorem compile_of_error {error : Error} (h : parseSource source = .error error) :
    (m.compile source).result = .error error ∧ (m.compile source).module = m := by
  rcases m.compile_cases source with ⟨error', hresult, hmodule, hparse⟩ | ⟨_, hparse, _⟩
  · rw [h] at hparse
    cases hparse
    exact ⟨hresult, hmodule⟩
  · rw [h] at hparse
    cases hparse

/-- A source that can be read is lowered. -/
theorem compile_of_ok (h : parseSource source = .ok exprs) :
    (m.compile source).result = (m.lowerAll exprs).result.mapError .lowering ∧
      (m.compile source).module = (m.lowerAll exprs).module := by
  rcases m.compile_cases source with ⟨_, _, _, hparse⟩ | ⟨exprs', hparse, hresult, hmodule⟩
  · rw [h] at hparse
    cases hparse
  · rw [h] at hparse
    cases hparse
    exact ⟨hresult, hmodule⟩

/-- A source whose compilation succeeds has been read and lowered. -/
theorem exists_of_compile_eq_ok (h : (m.compile source).result = .ok values) :
    ∃ exprs, parseSource source = .ok exprs ∧ (m.lowerAll exprs).result = .ok values ∧
      (m.compile source).module = (m.lowerAll exprs).module := by
  rcases m.compile_cases source with ⟨_, hresult, _⟩ | ⟨exprs, hparse, hresult, hmodule⟩
  · rw [hresult] at h
    cases h
  · refine ⟨exprs, hparse, ?_, hmodule⟩
    rw [hresult] at h
    cases hlower : (m.lowerAll exprs).result with
    | ok values' =>
      rw [hlower] at h
      exact congrArg Except.ok (Except.ok.inj h)
    | error error =>
      rw [hlower] at h
      cases h

/-- A program that is lowered leaves the module that has been built. -/
theorem lowerAll_of_ok (h : (Expr.lowerEach exprs (Builder.ofModule m)).1 = .ok values) :
    (m.lowerAll exprs).result = .ok values ∧
      (m.lowerAll exprs).module = (Expr.lowerEach exprs (Builder.ofModule m)).2.module := by
  unfold lowerAll
  split
  · rename_i values' b heq
    rw [heq] at h
    cases h
    rw [heq]
    exact ⟨rfl, rfl⟩
  · rename_i error b heq
    rw [heq] at h
    cases h

/-- A program that cannot be lowered leaves the error. -/
theorem lowerAll_of_error {error : LoweringError}
    (h : (Expr.lowerEach exprs (Builder.ofModule m)).1 = .error error) :
    (m.lowerAll exprs).result = .error error := by
  unfold lowerAll
  split
  · rename_i values b heq
    rw [heq] at h
    cases h
  · rename_i error' b heq
    rw [heq] at h
    cases h
    rfl

/-- Lowering two programs one after the other is lowering both together, except that a failure of
the second one takes the first one back as well. -/
theorem Consistent.lowerAll_append (hm : m.Consistent)
    (h : (m.lowerAll exprs).result = .ok values) (more : List Expr) :
    let middle := (m.lowerAll exprs).module
    let joined := m.lowerAll (exprs ++ more)
    (∀ others, (middle.lowerAll more).result = .ok others →
      joined.result = .ok (values ++ others) ∧ joined.module.Alike (middle.lowerAll more).module) ∧
    ∀ error, (middle.lowerAll more).result = .error error →
      joined.result = .error error ∧ joined.module.Alike m := by
  intro middle joined
  rcases hfirst : Expr.lowerEach exprs (Builder.ofModule m) with ⟨error | values', b⟩
  · rw [lowerAll_of_error (congrArg Prod.fst hfirst)] at h
    cases h
  obtain ⟨hvalues, hmiddle⟩ := lowerAll_of_ok (congrArg Prod.fst hfirst)
  rw [hfirst] at hmiddle
  rw [hvalues] at h
  cases h
  have hpoint : b.point = none := Expr.point_of_lowerEach hfirst
  have hboth := Expr.lowerEach_append hfirst more
  -- The builder differs from a new one for the same module only in what has happened.
  have hlike : b.Alike (Builder.ofModule middle) := ⟨hmiddle ▸ Alike.refl _, hpoint⟩
  obtain ⟨hresult, hafter⟩ := Expr.lowerEach_respects more b (Builder.ofModule middle) hlike
  rcases hsecond : Expr.lowerEach more b with ⟨error | others, c⟩
  · rw [hsecond] at hboth hresult
    have hfails := lowerAll_of_error hresult.symm
    have hjoined : joined.result = .error error := lowerAll_of_error (congrArg Prod.fst hboth)
    refine ⟨fun _ hok => ?_, fun error' herror => ?_⟩
    · rw [hfails] at hok
      cases hok
    · rw [hfails] at herror
      cases herror
      rcases hm.lowerAll (exprs ++ more) with ⟨_, hok, _⟩ | ⟨_, _, halike, _⟩
      · rw [hjoined] at hok
        cases hok
      · exact ⟨hjoined, halike⟩
  · rw [hsecond] at hboth hresult hafter
    obtain ⟨hsucceeds, hmodule⟩ := lowerAll_of_ok hresult.symm
    obtain ⟨hjoined, hjoinedModule⟩ := lowerAll_of_ok (congrArg Prod.fst hboth)
    rw [hboth] at hjoinedModule
    refine ⟨fun others' hok => ?_, fun _ herror => ?_⟩
    · rw [hsucceeds] at hok
      cases hok
      refine ⟨hjoined, ?_⟩
      rw [hjoinedModule, hmodule]
      exact hafter.module_alike
    · rw [hsucceeds] at herror
      cases herror

/-- Compiling what is read as two programs, of which the first one can be lowered, is compiling the
second one after the first, except that a failure of the second one takes the first one back. -/
theorem Consistent.compile_both (hm : m.Consistent)
    (hlower : (m.lowerAll exprs).result = .ok values) {second joined : String} {more : List Expr}
    (hsecond : parseSource second = .ok more) (hjoined : parseSource joined = .ok (exprs ++ more)) :
    let middle := (m.lowerAll exprs).module
    (∃ others, (middle.compile second).result = .ok others ∧
        (m.compile joined).result = .ok (values ++ others) ∧
        (m.compile joined).module.Alike (middle.compile second).module) ∨
      ∃ error, (middle.compile second).result = .error (.lowering error) ∧
        (m.compile joined).result = .error (.lowering error) ∧
        (m.compile joined).module.Alike m := by
  intro middle
  obtain ⟨hresult, hafter⟩ := compile_of_ok (m := middle) hsecond
  obtain ⟨hboth, hmodule⟩ := compile_of_ok (m := m) hjoined
  obtain ⟨hok, herror⟩ := hm.lowerAll_append hlower more
  rw [hresult, hafter, hboth, hmodule]
  cases hmore : (middle.lowerAll more).result with
  | ok others =>
    obtain ⟨hall, halike⟩ := hok others hmore
    exact .inl ⟨others, rfl, by rw [hall]; rfl, halike⟩
  | error error =>
    obtain ⟨hall, halike⟩ := herror error hmore
    exact .inr ⟨error, rfl, by rw [hall]; rfl, halike⟩

/-- An input that succeeds, blanks, and another input have the effect of one input after the other.
If there is nothing in the second one, this is the effect of the first. If the second one fails, the
whole fails with the same error, the place of which counts from the start of the whole, and leaves
the module like it has been before the first. -/
theorem compile_append (name : String) (requests : List Request) (first blanks second : String)
    {values : List Value} (hne : blanks ≠ "")
    (hblanks : ∀ c ∈ blanks.toList, Token.isBlank c = true)
    (hfirst : ((ofRequests name requests).compile first).result = .ok values) :
    let m := ofRequests name requests
    let middle := (m.compile first).module
    let joined := m.compile (first ++ blanks ++ second)
    ∃ tokens, Token.ofSource first = .ok tokens ∧
      (∀ others, (middle.compile second).result = .ok others →
        joined.result = .ok (values ++ others) ∧
          joined.module.Alike (middle.compile second).module) ∧
      ((middle.compile second).result = .error (.parse .nothingToParse) →
        joined.result = .ok values ∧ joined.module.Alike middle) ∧
      ∀ error, (middle.compile second).result = .error error →
        error ≠ .parse .nothingToParse →
        joined.result =
            .error (error.shift (byteLength (first ++ blanks).toList) tokens.length) ∧
          joined.module.Alike m := by
  intro m middle joined
  have hm : m.Consistent := consistent_invariant.ofRequests consistent_empty name requests
  obtain ⟨exprs, hexprs, hlower, hmodule⟩ := exists_of_compile_eq_ok hfirst
  obtain ⟨tokens, htokens, hprogram⟩ := parseSource_eq_ok_iff.mp hexprs
  have hparse := parseSource_append hne hblanks htokens hprogram second
  refine ⟨tokens, htokens, ?_⟩
  rcases hsecond : parseSource second with error | more
  · rw [hsecond] at hparse
    obtain ⟨hfails, _⟩ := compile_of_error (m := middle) hsecond
    rw [hfails]
    refine ⟨nofun, ?_, ?_⟩
    · rintro ⟨⟩
      obtain ⟨hjoined, hjoinedModule⟩ := compile_of_ok (m := m) hparse
      refine ⟨?_, ?_⟩
      · rw [hjoined, hlower]
        rfl
      · rw [hjoinedModule, ← hmodule]
        exact Alike.refl middle
    · rintro _ ⟨⟩ hplaced
      rw [continued_error hplaced] at hparse
      obtain ⟨hjoined, hjoinedModule⟩ := compile_of_error (m := m) hparse
      refine ⟨hjoined, ?_⟩
      rw [hjoinedModule]
      exact Alike.refl m
  · rw [hsecond] at hparse
    have hboth := hm.compile_both hlower hsecond hparse
    rw [← hmodule] at hboth
    rcases hboth with ⟨others, hok, hjoined, halike⟩ | ⟨error, herror, hjoined, halike⟩
    · rw [hok]
      refine ⟨?_, nofun, nofun⟩
      rintro _ ⟨⟩
      exact ⟨hjoined, halike⟩
    · rw [herror]
      refine ⟨nofun, nofun, ?_⟩
      rintro _ ⟨⟩ _
      exact ⟨hjoined, halike⟩

/-- Behind a function of eleven tokens a parenthesis is not closed. -/
theorem compile_append_unclosed :
    let m := ofRequests "m" [.call (.compile "(define x 2)")]
    let first := "(lambda (y) (* x y))"
    (m.compile first).result = .ok [.function 0] ∧
      (m.compile (first ++ "\n" ++ "(x")).result = .error (.parse (.unclosedParen 11 13)) ∧
      (m.compile (first ++ "\n" ++ "(x")).module.Alike m := by
  intro m first
  have hfirst : (m.compile first).result = .ok [.function 0] := by decide +kernel
  have hsecond : ((m.compile first).module.compile "(x").result =
      .error (.parse (.unclosedParen 0 2)) := by
    decide +kernel
  have hblanks : ∀ c ∈ "\n".toList, Token.isBlank c = true := List.all_eq_true.mp rfl
  obtain ⟨tokens, htokens, _, _, hfails⟩ :=
    compile_append "m" _ first "\n" "(x" (by simp) hblanks hfirst
  have hlength : (Token.ofSource first).map List.length = .ok 11 := by decide +kernel
  rw [htokens, Except.map, Except.ok.injEq] at hlength
  obtain ⟨hjoined, halike⟩ := hfails _ hsecond nofun
  refine ⟨hfirst, ?_, halike⟩
  rw [hjoined, hlength]
  rfl

end Module

end LambdaArith
