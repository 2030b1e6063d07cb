import LambdaArith.Program
import LambdaArith.Proofs.Recognition

/-!
# The grammar of programs

A program is derived piece by piece. Nothing stands between the pieces and nothing is left over,
and a list of tokens is the program of one list of expressions at most.
-/

namespace LambdaArith

/-- The tokens are the derivations of the expressions, one behind the other. -/
inductive DerivesEach : List Token → List Expr → Prop where
  | nil : DerivesEach [] []
  | cons {first rest : List Token} {e : Expr} {others : List Expr}
      (hfirst : Derives maxNesting first e) (hrest : DerivesEach rest others) :
      DerivesEach (first ++ rest) (e :: others)

namespace Form

variable {cursor after : Cursor} {tokens : List Token} {e : Expr} {exprs : List Expr}
  {error : ParseError}

/-- At the end of the tokens there are no forms. -/
theorem readAll_nil {index : Nat} : readAll ⟨[], index⟩ = ([], none) := by
  rw [readAll]
  rfl

/-- Behind a form that is read the reading goes on. -/
theorem readAll_of_ok (h : Expr.parse cursor = .ok (e, after)) :
    readAll cursor =
      (⟨e, cursor.index, after.index - 1⟩ :: (readAll after).1, (readAll after).2) := by
  have hne : ¬ cursor.rest.isEmpty = true := by
    intro hempty
    have hlength := Expr.length_parseNested h
    rw [List.isEmpty_iff.mp hempty] at hlength
    exact Nat.not_lt_zero _ hlength
  rw [readAll, if_neg hne]
  split <;> simp_all

/-- An error ends the reading. -/
theorem readAll_of_error (hne : cursor.rest ≠ []) (h : Expr.parse cursor = .error error) :
    readAll cursor = ([], some error) := by
  have hne : ¬ cursor.rest.isEmpty = true := fun hempty => hne (List.isEmpty_iff.mp hempty)
  rw [readAll, if_neg hne]
  split <;> simp_all

/-- Forms that are read without an error are derived by the tokens. -/
theorem derivesEach_of_readAll {forms : List Form} (h : readAll cursor = (forms, none)) :
    DerivesEach cursor.rest (forms.map Form.expr) := by
  induction cursor using readAll.induct generalizing forms with
  | case1 cursor hempty =>
    rw [readAll, if_pos hempty, Prod.mk.injEq] at h
    rw [List.isEmpty_iff.mp hempty, ← h.1]
    exact .nil
  | case2 cursor hne error hparse =>
    rw [readAll_of_error (fun hnil => hne (List.isEmpty_iff.mpr hnil)) hparse,
      Prod.mk.injEq] at h
    cases h.2
  | case3 cursor hne e after hparse forms' error hrest ih =>
    rw [readAll_of_ok hparse, hrest, Prod.mk.injEq] at h
    obtain ⟨rfl, rfl⟩ := h
    obtain ⟨tokens, htakes, hderives⟩ := Expr.parseNested_sound hparse
    rw [htakes.rest_eq]
    exact .cons hderives (ih hrest)

/-- What the tokens derive is read without an error. -/
theorem readAll_of_derivesEach (h : DerivesEach tokens exprs) (index : Nat) :
    ∃ forms, readAll ⟨tokens, index⟩ = (forms, none) ∧ forms.map Form.expr = exprs := by
  induction h generalizing index with
  | nil => exact ⟨[], readAll_nil, rfl⟩
  | @cons first rest e others hfirst _ ih =>
    obtain ⟨forms, hread, hforms⟩ := ih (index + first.length)
    have hparse : Expr.parse ⟨first ++ rest, index⟩ = .ok (e, ⟨rest, index + first.length⟩) :=
      hfirst.parseNested_of_le (Nat.le_refl maxNesting) index
    refine ⟨⟨e, index, index + first.length - 1⟩ :: forms, ?_, ?_⟩
    · rw [readAll_of_ok hparse, hread]
    · rw [List.map_cons, hforms]

end Form

variable {tokens : List Token} {exprs : List Expr}

/-- Tokens whose forms are read without an error are the program of these forms. -/
theorem parseProgram_of_readAll {forms : List Form} (hne : tokens ≠ [])
    (h : Form.readAll ⟨tokens, 0⟩ = (forms, none)) :
    parseProgram tokens = .ok (forms.map Form.expr) := by
  have hforms : Form.ofTokens tokens = (forms, none) := by
    rw [← h, Form.ofTokens, if_neg (fun hnil => hne (List.isEmpty_iff.mp hnil))]
    rfl
  rw [parseProgram, hforms]

/-- Tokens among whose forms there is an error fail with that error. -/
theorem parseProgram_of_readAll_error {forms : List Form} {error : ParseError} (hne : tokens ≠ [])
    (h : Form.readAll ⟨tokens, 0⟩ = (forms, some error)) :
    parseProgram tokens = .error error := by
  have hforms : Form.ofTokens tokens = (forms, some error) := by
    rw [← h, Form.ofTokens, if_neg (fun hnil => hne (List.isEmpty_iff.mp hnil))]
    rfl
  rw [parseProgram, hforms]

/-- Tokens are a program exactly if there are some and they derive its expressions. -/
theorem parseProgram_eq_ok_iff :
    parseProgram tokens = .ok exprs ↔ tokens ≠ [] ∧ DerivesEach tokens exprs := by
  constructor
  · intro h
    have hne : tokens ≠ [] := by
      rintro rfl
      cases h
    refine ⟨hne, ?_⟩
    rcases hread : Form.readAll ⟨tokens, 0⟩ with ⟨forms, _ | error⟩
    · rw [parseProgram_of_readAll hne hread, Except.ok.injEq] at h
      rw [← h]
      exact Form.derivesEach_of_readAll hread
    · rw [parseProgram_of_readAll_error hne hread] at h
      cases h
  · rintro ⟨hne, hderives⟩
    obtain ⟨forms, hread, rfl⟩ := Form.readAll_of_derivesEach hderives 0
    exact parseProgram_of_readAll hne hread

/-- A program that fails at its first expression fails in the same way. -/
theorem parseProgram_of_error {error : ParseError} (hne : tokens ≠ [])
    (h : Expr.parse ⟨tokens, 0⟩ = .error error) : parseProgram tokens = .error error :=
  parseProgram_of_readAll_error hne (Form.readAll_of_error hne h)

/-- A program of one expression is a derivation of it. -/
theorem derivesEach_singleton {e : Expr} :
    DerivesEach tokens [e] ↔ Derives maxNesting tokens e := by
  constructor
  · intro h
    cases h with
    | cons hfirst hrest =>
      cases hrest
      rwa [List.append_nil]
  · intro h
    have hsingle := DerivesEach.cons h .nil
    rwa [List.append_nil] at hsingle

end LambdaArith
