import LambdaArith.Proofs.ProgramGrammar
import LambdaArith.Proofs.Shape
import Mathlib.Data.List.Forall2

/-!
# Where expressions begin and end

An expression that is read from a token on takes the tokens up to another one, and these derive it
whatever stands around them. So where it ends follows from where it begins, and a program is cut
into its expressions in one way only.
-/

namespace LambdaArith

/-- Reads the expression that begins at a token, and gives the index of its last token. -/
def Expr.parseFrom (tokens : List Token) (start : Nat) : Except ParseError (Expr × Nat) :=
  (parse (Cursor.ofTokens tokens start)).map fun (e, after) => (e, after.index - 1)

/-- The tokens from one index up to and including another derive the expression at depth zero,
where all levels of nesting are left. -/
structure Spans (tokens : List Token) (start last : Nat) (e : Expr) : Prop where
  start_le : start ≤ last
  last_lt : last < tokens.length
  derives : Derives maxNesting (tokens.extract start (last + 1)) e

variable {levels : Nat} {tokens : List Token} {start last : Nat} {e : Expr}

/-- An expression is less high than there are levels to derive it. -/
theorem Derives.height_lt (h : Derives levels tokens e) : e.height < levels := by
  induction h with
  | number => exact Nat.succ_pos _
  | identifier => exact Nat.succ_pos _
  | paren _ _ _ ih => exact Nat.lt_succ_of_lt ih
  | binary _ _ _ _ ihl ihr =>
    rw [Expr.height]
    omega
  | define _ _ _ _ ih => exact Nat.succ_lt_succ ih
  | lambda _ _ _ _ _ _ _ ih => exact Nat.succ_lt_succ ih

namespace Cursor

/-- What is taken from a place are the tokens from there on. -/
theorem Takes.eq_extract {piece : List Token} {after : Cursor}
    (h : (ofTokens tokens start).Takes piece after) :
    piece = tokens.extract start (start + piece.length) := by
  have hdrop : tokens.drop start = piece ++ after.rest := h.rest_eq
  rw [List.extract_eq_take_drop, hdrop, Nat.add_sub_cancel_left, List.take_left]

/-- The tokens between two indices are taken on the way from the one to behind the other. -/
theorem takes_extract (hle : start ≤ last) (hlt : last < tokens.length) :
    (ofTokens tokens start).Takes (tokens.extract start (last + 1))
      (ofTokens tokens (last + 1)) where
  rest_eq := by
    have hstop : start + (last + 1 - start) = last + 1 := by omega
    have hsplit := List.take_append_drop (last + 1 - start) (tokens.drop start)
    rw [List.drop_drop, hstop] at hsplit
    rw [List.extract_eq_take_drop]
    exact hsplit.symm
  index_eq := by
    simp only [ofTokens, List.extract_eq_take_drop, List.length_take, List.length_drop]
    omega

end Cursor

namespace Expr

/-- The parser reads an expression from one token to another exactly if the tokens between them
derive it. -/
theorem parseFrom_eq_ok_iff :
    parseFrom tokens start = .ok (e, last) ↔ Spans tokens start last e := by
  constructor
  · intro h
    unfold parseFrom at h
    cases hparse : parse (Cursor.ofTokens tokens start) with
    | error error =>
      rw [hparse] at h
      cases h
    | ok result =>
      obtain ⟨e', after⟩ := result
      rw [hparse] at h
      obtain ⟨rfl, hlast⟩ : e' = e ∧ after.index - 1 = last := by
        simpa only [Except.map, Except.ok.injEq, Prod.mk.injEq] using h
      obtain ⟨piece, htakes, hderives⟩ := parseNested_sound hparse
      have hpos : 0 < piece.length := List.length_pos_iff.mpr hderives.ne_nil
      have hindex : after.index = start + piece.length := htakes.index_eq
      have hstop : last + 1 = start + piece.length := by omega
      have hlength : tokens.length - start = piece.length + after.rest.length := by
        rw [← List.length_drop, ← List.length_append]
        exact congrArg List.length htakes.rest_eq
      refine ⟨by omega, by omega, ?_⟩
      rw [hstop, ← htakes.eq_extract]
      exact hderives
  · rintro ⟨hle, hlt, hderives⟩
    have hparse : parse (Cursor.ofTokens tokens start) =
        .ok (e, Cursor.ofTokens tokens (last + 1)) :=
      parseNested_eq_ok_iff.mpr ⟨_, Cursor.takes_extract hle hlt, hderives⟩
    rw [parseFrom, hparse]
    rfl

end Expr

/-- Only one expression begins at a token, and it ends at one place. -/
theorem Spans.unique {last' : Nat} {e' : Expr} (h : Spans tokens start last e)
    (h' : Spans tokens start last' e') : e = e' ∧ last = last' := by
  have hread := Expr.parseFrom_eq_ok_iff.mpr h
  rw [Expr.parseFrom_eq_ok_iff.mpr h'] at hread
  have hpair := Except.ok.inj hread
  exact ⟨(Prod.mk.inj hpair).1.symm, (Prod.mk.inj hpair).2.symm⟩

/-- The tokens are the derivations of the expressions, one behind the other, exactly if they can be
cut into pieces that derive them. -/
theorem derivesEach_iff_exists_pieces {exprs : List Expr} :
    DerivesEach tokens exprs ↔
      ∃ pieces : List (List Token), pieces.flatten = tokens ∧
        List.Forall₂ (Derives maxNesting) pieces exprs := by
  constructor
  · intro h
    induction h with
    | nil => exact ⟨[], rfl, .nil⟩
    | @cons first rest e exprs hfirst _ ih =>
      obtain ⟨pieces, hflatten, hpieces⟩ := ih
      exact ⟨first :: pieces, by rw [List.flatten_cons, hflatten], .cons hfirst hpieces⟩
  · rintro ⟨pieces, rfl, hpieces⟩
    induction hpieces with
    | nil => exact .nil
    | cons hfirst _ ih =>
      rw [List.flatten_cons]
      exact .cons hfirst ih

/-- The parser accepts exactly the grammar. From a token it reads the expression that the tokens up
to another one derive; there is one such expression at most, it does not depend on what stands
around these tokens, and it is at most 255 high. A program is read exactly if its tokens can be
cut, with none left over, into derivations of its expressions. -/
theorem parser_accepts_grammar (tokens : List Token) :
    (∀ start last e, Expr.parseFrom tokens start = .ok (e, last) ↔ Spans tokens start last e) ∧
    (∀ start last last' e e', Spans tokens start last e → Spans tokens start last' e' →
      e = e' ∧ last = last') ∧
    (∀ others start last e, Spans tokens start last e → last < others.length →
      others.extract start (last + 1) = tokens.extract start (last + 1) →
        Expr.parseFrom others start = .ok (e, last)) ∧
    (∀ start last e, Spans tokens start last e → e.height ≤ 255) ∧
    (tokens ≠ [] → ∀ exprs, parseProgram tokens = .ok exprs ↔
      ∃ pieces : List (List Token), pieces.flatten = tokens ∧
        List.Forall₂ (Derives maxNesting) pieces exprs) := by
  refine ⟨fun _ _ _ => Expr.parseFrom_eq_ok_iff, fun _ _ _ _ _ h h' => h.unique h', ?_, ?_, ?_⟩
  · intro others start last e h hlt hsame
    exact Expr.parseFrom_eq_ok_iff.mpr ⟨h.start_le, hlt, hsame ▸ h.derives⟩
  · intro start last e h
    have hheight := h.derives.height_lt
    unfold maxNesting at hheight
    omega
  · intro hne exprs
    rw [parseProgram_eq_ok_iff, derivesEach_iff_exists_pieces]
    exact and_iff_right hne

/-- The tokens `+ x y z` are two expressions, of which the first does not depend on the last
token. -/
theorem parser_accepts_grammar_sum :
    let token (kind : TokenKind) (lexeme : String) (place : Nat) : Token :=
      ⟨kind, lexeme, ⟨place, place + 1⟩⟩
    let sum := [token .operator "+" 0, token .identifier "x" 2, token .identifier "y" 4]
    let tokens := sum ++ [token .identifier "z" 6]
    let others := sum ++ [token .closeParen ")" 6]
    let e := Expr.binary .add (.identifier "x") (.identifier "y")
    Spans tokens 0 2 e ∧ others.extract 0 3 = tokens.extract 0 3 ∧
      Expr.parseFrom others 0 = .ok (e, 2) ∧ e.height ≤ 255 ∧ tokens ≠ [] ∧
      parseProgram tokens = .ok [e, .identifier "z"] := by
  intro token sum tokens others e
  obtain ⟨_, _, hothers, hheight, hprogram⟩ := parser_accepts_grammar tokens
  have hx : Derives 255 [token .identifier "x" 2] (.identifier "x") := .identifier rfl
  have hy : Derives 255 [token .identifier "y" 4] (.identifier "y") := .identifier rfl
  have hsum : Derives maxNesting sum e := .binary rfl rfl hx hy
  have hspans : Spans tokens 0 2 e := ⟨by decide, by decide, hsum⟩
  have hpieces : List.Forall₂ (Derives maxNesting) [sum, [token .identifier "z" 6]]
      [e, .identifier "z"] := .cons hsum (.cons (.identifier rfl) .nil)
  exact ⟨hspans, rfl, hothers others 0 2 e hspans (by decide) rfl, hheight 0 2 e hspans, by decide,
    (hprogram (by decide) _).mpr ⟨_, rfl, hpieces⟩⟩

end LambdaArith
