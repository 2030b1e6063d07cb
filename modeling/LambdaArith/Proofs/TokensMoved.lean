import LambdaArith.Proofs.Lexing
import LambdaArith.Proofs.ProgramGrammar

/-!
# Tokens that stand further on

The parser asks what its tokens are and how many have come before them, and nothing else. Where the
same words stand so many tokens further on, it reads the same, and what it says about an error is
so many tokens further on.
-/

namespace LambdaArith

open Token

/-- The error so many tokens further on. -/
def ParseError.shift (n : Nat) : ParseError → ParseError
  | nothingToParse => nothingToParse
  | missingExpression offset => missingExpression (offset + n)
  | malformedDefine offset => malformedDefine (offset + n)
  | malformedLambda offset => malformedLambda (offset + n)
  | repeatedParameter name offset => repeatedParameter name (offset + n)
  | invalidNumber lexeme offset => invalidNumber lexeme (offset + n)
  | unsupportedForm offset => unsupportedForm (offset + n)
  | unclosedParen opening offset => unclosedParen (opening + n) (offset + n)
  | unexpectedCloseParen offset => unexpectedCloseParen (offset + n)
  | tooDeep offset => tooDeep (offset + n)

/-- The same words follow, so many tokens further on. -/
structure Cursor.Moved (n : Nat) (cursor other : Cursor) : Prop where
  words : other.rest.map word = cursor.rest.map word
  index : other.index = cursor.index + n

/-- Reading comes to the same in both places, or fails in both with an error that is about a
token. -/
inductive MovedResult {α : Type} (n : Nat) (same : α → α → Prop) :
    Except ParseError α → Except ParseError α → Prop where
  | ok {a b : α} (h : same a b) : MovedResult n same (.ok a) (.ok b)
  | error {e f : ParseError} (hshift : f = e.shift n) (hplaced : e ≠ .nothingToParse) :
      MovedResult n same (.error e) (.error f)

variable {n : Nat}

/-- Steps one after the other come to the same if each does. -/
theorem MovedResult.bind {α β : Type} {same : α → α → Prop} {same' : β → β → Prop}
    {first first' : Except ParseError α} {next next' : α → Except ParseError β}
    (hfirst : MovedResult n same first first')
    (hnext : ∀ a b, same a b → MovedResult n same' (next a) (next' b)) :
    MovedResult n same' (first >>= next) (first' >>= next') := by
  cases hfirst with
  | ok h => exact hnext _ _ h
  | error hshift hplaced => exact .error hshift hplaced

namespace Cursor

variable {cursor other : Cursor} {token token' : Token} {rest rest' : List Token} {index : Nat}

/-- The same words start with the same word. -/
theorem exists_cons_of_words {tokens : List Token}
    (h : tokens.map word = (token :: rest).map word) :
    ∃ token' rest', tokens = token' :: rest' ∧ token'.kind = token.kind ∧
      token'.lexeme = token.lexeme ∧ rest'.map word = rest.map word := by
  obtain ⟨token', rest', rfl, htoken, hrest⟩ := List.map_eq_cons_iff.mp h
  exact ⟨token', rest', rfl, congrArg Prod.fst htoken, congrArg Prod.snd htoken, hrest⟩

/-- The same words follow in two places if there are none, or a word that is the same and then the
same words. -/
theorem Moved.cases (h : cursor.Moved n other) :
    (∃ index, cursor = ⟨[], index⟩ ∧ other = ⟨[], index + n⟩) ∨
      ∃ index token token' rest rest', cursor = ⟨token :: rest, index⟩ ∧
        other = ⟨token' :: rest', index + n⟩ ∧ token'.kind = token.kind ∧
        token'.lexeme = token.lexeme ∧ rest'.map word = rest.map word := by
  obtain ⟨tokens, index⟩ := cursor
  obtain ⟨tokens', index'⟩ := other
  obtain ⟨hwords, hindex⟩ := h
  dsimp only at hwords hindex
  subst hindex
  cases tokens with
  | nil =>
    obtain rfl := List.map_eq_nil_iff.mp hwords
    exact .inl ⟨index, rfl, rfl⟩
  | cons token rest =>
    obtain ⟨token', rest', rfl, hsame⟩ := exists_cons_of_words hwords
    exact .inr ⟨index, token, token', rest, rest', rfl, rfl, hsame⟩

/-- Behind the first of the same words stand the same words. -/
theorem Moved.next (h : rest'.map word = rest.map word) (index : Nat) :
    Moved n ⟨rest, index + 1⟩ ⟨rest', index + n + 1⟩ :=
  ⟨h, Nat.add_right_comm index n 1⟩

/-- A parenthesis is closed in both places or in none. -/
theorem closeParen_moved (h : cursor.Moved n other) (opening : Nat) :
    MovedResult n (Moved n) (cursor.closeParen opening) (other.closeParen (opening + n)) := by
  rcases h.cases with ⟨index, rfl, rfl⟩ |
    ⟨index, token, token', rest, rest', rfl, rfl, hkind, _, hrest⟩
  · exact .error rfl (by simp)
  · simp only [closeParen, hkind]
    split
    · exact .ok (.next hrest index)
    · exact .error rfl (by simp)

/-- A name is defined in both places or in none. -/
theorem definedName_moved (h : cursor.Moved n other) :
    MovedResult n (fun a b => b.1 = a.1 ∧ a.2.Moved n b.2) cursor.definedName
      other.definedName := by
  rcases h.cases with ⟨index, rfl, rfl⟩ |
    ⟨index, token, token', rest, rest', rfl, rfl, hkind, hlexeme, hrest⟩
  · exact .error rfl (by simp)
  · simp only [definedName, hkind, hlexeme]
    split
    · exact .ok ⟨rfl, .next hrest index⟩
    · exact .error rfl (by simp)

/-- A list of parameters is opened in both places or in none. -/
theorem openParameters_moved (h : cursor.Moved n other) :
    MovedResult n (Moved n) cursor.openParameters other.openParameters := by
  rcases h.cases with ⟨index, rfl, rfl⟩ |
    ⟨index, token, token', rest, rest', rfl, rfl, hkind, _, hrest⟩
  · exact .error rfl (by simp)
  · simp only [openParameters, hkind]
    split
    · exact .ok (.next hrest index)
    · exact .error rfl (by simp)

/-- Parameters are the same in both places. -/
theorem parameters_moved {tokens tokens' : List Token} (seen : List String)
    (h : tokens'.map word = tokens.map word) (index : Nat) :
    MovedResult n (fun a b => b.1 = a.1 ∧ a.2.Moved n b.2) (parameters seen tokens index)
      (parameters seen tokens' (index + n)) := by
  induction tokens generalizing tokens' seen index with
  | nil =>
    obtain rfl := List.map_eq_nil_iff.mp h
    exact .error rfl (by simp)
  | cons token rest ih =>
    obtain ⟨token', rest', rfl, hkind, hlexeme, hrest⟩ := exists_cons_of_words h
    simp only [parameters, hkind, hlexeme]
    split
    · split
      · exact .error rfl (by simp)
      · have hmore := ih (seen ++ [token.lexeme]) hrest (index + 1)
        rwa [Nat.add_right_comm] at hmore
    · split
      · exact .ok ⟨rfl, .next hrest index⟩
      · exact .error rfl (by simp)

end Cursor

namespace Expr

variable {cursor other : Cursor}

/-- An expression is the same in both places. -/
theorem parseNested_moved (levels : Nat) (h : cursor.Moved n other) :
    MovedResult n (fun a b => b.1 = a.1 ∧ a.2.Moved n b.2) (parseNested levels cursor)
      (parseNested levels other) := by
  induction levels generalizing cursor other with
  | zero => exact .error (congrArg ParseError.tooDeep h.index) (by simp)
  | succ levels ih =>
    rcases h.cases with ⟨index, rfl, rfl⟩ |
      ⟨index, token, token', rest, rest', rfl, rfl, hkind, hlexeme, hrest⟩
    · exact .error rfl (by simp)
    · have hnext : Cursor.Moved n ⟨rest, index + 1⟩ ⟨rest', index + n + 1⟩ := .next hrest index
      have hempty : rest'.isEmpty = rest.isEmpty := by
        rw [← List.isEmpty_map (f := word), hrest, List.isEmpty_map]
      simp only [parseNested, hkind, hlexeme, hempty]
      cases token.kind with
      | openParen =>
        dsimp only
        split
        · refine .error ?_ (by simp)
          rw [ParseError.shift, Nat.add_right_comm]
        · refine (ih hnext).bind ?_
          rintro ⟨inner, after⟩ ⟨_, after'⟩ ⟨rfl, hafter⟩
          refine (Cursor.closeParen_moved hafter index).bind ?_
          intro last last' hlast
          exact .ok ⟨rfl, hlast⟩
      | closeParen => exact .error rfl (by simp)
      | operator =>
        dsimp only
        split
        · exact .error rfl (by simp)
        · refine (ih hnext).bind ?_
          rintro ⟨lhs, after⟩ ⟨_, after'⟩ ⟨rfl, hafter⟩
          refine (ih hafter).bind ?_
          rintro ⟨rhs, last⟩ ⟨_, last'⟩ ⟨rfl, hlast⟩
          exact .ok ⟨rfl, hlast⟩
      | number =>
        dsimp only
        split
        · exact .error rfl (by simp)
        · exact .ok ⟨rfl, hnext⟩
      | identifier => exact .ok ⟨rfl, hnext⟩
      | keyword =>
        dsimp only
        split
        · exact .error rfl (by simp)
        · refine (Cursor.definedName_moved hnext).bind ?_
          rintro ⟨name, after⟩ ⟨_, after'⟩ ⟨rfl, hafter⟩
          refine (ih hafter).bind ?_
          rintro ⟨value, last⟩ ⟨_, last'⟩ ⟨rfl, hlast⟩
          exact .ok ⟨rfl, hlast⟩
        · refine (Cursor.openParameters_moved hnext).bind ?_
          rintro ⟨opened, start⟩ ⟨opened', start'⟩ ⟨hopened, hstart⟩
          dsimp only at hopened hstart
          subst hstart
          refine (Cursor.parameters_moved [] hopened start).bind ?_
          rintro ⟨names, after⟩ ⟨_, after'⟩ ⟨rfl, hafter⟩
          refine (ih hafter).bind ?_
          rintro ⟨body, last⟩ ⟨_, last'⟩ ⟨rfl, hlast⟩
          exact .ok ⟨rfl, hlast⟩

end Expr

end LambdaArith
