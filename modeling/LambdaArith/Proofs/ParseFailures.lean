import LambdaArith.Proofs.ParseErrors
import LambdaArith.Proofs.TokenLanguages

/-!
# How reading an expression fails

An expression cannot be read for one of a few reasons that are found at a token, or because one of
its parts cannot be read. `Fails` has a rule for each of them, and what holds of all errors in
expressions is shown by induction on these rules.
-/

namespace LambdaArith

open Cursor Grammar

/-- The next token, if there is one, is of another class. -/
def Cursor.Lacks (cursor : Cursor) (kind : TokenKind) : Prop :=
  ∀ token ∈ cursor.rest.head?, token.kind ≠ kind

/-- Reading an expression that may be nested so deep fails at a place with an error. -/
inductive Fails : Nat → Cursor → ParseError → Prop
  | tooDeep (cursor : Cursor) : Fails 0 cursor (.tooDeep cursor.index)
  | missing (levels index : Nat) : Fails (levels + 1) ⟨[], index⟩ (.missingExpression index)
  /-- No expression starts with the first token. -/
  | wrong {levels index : Nat} {token : Token} {rest : List Token} {error : ParseError} :
      ¬ token.StartsExpression → error.offset? = some index →
      (∀ opening offset, error ≠ .unclosedParen opening offset) →
      Fails (levels + 1) ⟨token :: rest, index⟩ error
  /-- There is nothing behind a parenthesis. -/
  | openAtEnd {levels index : Nat} {token : Token} : token.kind = .openParen →
      Fails (levels + 1) ⟨[token], index⟩ (.unclosedParen index (index + 1))
  | insideParens {levels index : Nat} {token : Token} {rest : List Token} {error : ParseError} :
      token.kind = .openParen → Fails levels ⟨rest, index + 1⟩ error →
      Fails (levels + 1) ⟨token :: rest, index⟩ error
  /-- A parenthesis is not closed behind the expression in it. -/
  | notClosed {levels index : Nat} {token : Token} {rest inner : List Token} {e : Expr}
      {after : Cursor} :
      token.kind = .openParen → Takes ⟨rest, index + 1⟩ inner after → Derives levels inner e →
      after.Lacks .closeParen →
      Fails (levels + 1) ⟨token :: rest, index⟩ (.unclosedParen index after.index)
  | leftOperand {levels index : Nat} {token : Token} {rest : List Token} {error : ParseError}
      {op : Operator} :
      token.kind = .operator → Operator.ofSymbol? token.lexeme = some op →
      Fails levels ⟨rest, index + 1⟩ error → Fails (levels + 1) ⟨token :: rest, index⟩ error
  | rightOperand {levels index : Nat} {token : Token} {rest left : List Token}
      {error : ParseError} {op : Operator} {lhs : Expr} {after : Cursor} :
      token.kind = .operator → Operator.ofSymbol? token.lexeme = some op →
      Takes ⟨rest, index + 1⟩ left after → Derives levels left lhs → Fails levels after error →
      Fails (levels + 1) ⟨token :: rest, index⟩ error
  /-- The word `define` is not followed by a name. -/
  | noName {levels index : Nat} {token : Token} {rest : List Token} :
      token.kind = .keyword → Keyword.ofWord? token.lexeme = some .define →
      Lacks ⟨rest, index + 1⟩ .identifier →
      Fails (levels + 1) ⟨token :: rest, index⟩ (.malformedDefine (index + 1))
  | definedValue {levels index : Nat} {token name : Token} {rest : List Token} {error : ParseError}
      {after : Cursor} :
      token.kind = .keyword → Keyword.ofWord? token.lexeme = some .define →
      name.kind = .identifier → Takes ⟨rest, index + 1⟩ [name] after → Fails levels after error →
      Fails (levels + 1) ⟨token :: rest, index⟩ error
  /-- The word `lambda` is not followed by a parenthesis. -/
  | noParameters {levels index : Nat} {token : Token} {rest : List Token} :
      token.kind = .keyword → Keyword.ofWord? token.lexeme = some .lambda →
      Lacks ⟨rest, index + 1⟩ .openParen →
      Fails (levels + 1) ⟨token :: rest, index⟩ (.malformedLambda (index + 1))
  | parameters {levels index : Nat} {token opening : Token} {rest : List Token}
      {error : ParseError} {list : Cursor} :
      token.kind = .keyword → Keyword.ofWord? token.lexeme = some .lambda →
      opening.kind = .openParen → Takes ⟨rest, index + 1⟩ [opening] list →
      Cursor.parameters [] list.rest list.index = .error error →
      Fails (levels + 1) ⟨token :: rest, index⟩ error
  | body {levels index : Nat} {token opening : Token} {rest names : List Token}
      {error : ParseError} {list after : Cursor} :
      token.kind = .keyword → Keyword.ofWord? token.lexeme = some .lambda →
      opening.kind = .openParen → Takes ⟨rest, index + 1⟩ [opening] list →
      names ∈ parameterList [] → list.Takes names after → Fails levels after error →
      Fails (levels + 1) ⟨token :: rest, index⟩ error

namespace Cursor

variable {cursor : Cursor} {error : ParseError} {opening : Nat}

/-- A parenthesis is not closed where there is no closing one. -/
theorem lacks_of_closeParen (h : cursor.closeParen opening = .error error) :
    cursor.Lacks .closeParen := by
  obtain ⟨_ | ⟨token, rest⟩, index⟩ := cursor
  · exact nofun
  · rintro _ ⟨⟩ hkind
    rw [closeParen, if_pos hkind] at h
    cases h

/-- There is no name where there is no identifier. -/
theorem lacks_of_definedName (h : cursor.definedName = .error error) :
    cursor.Lacks .identifier := by
  obtain ⟨_ | ⟨token, rest⟩, index⟩ := cursor
  · exact nofun
  · rintro _ ⟨⟩ hkind
    rw [definedName, if_pos hkind] at h
    cases h

/-- There are no parameters where there is no opening parenthesis. -/
theorem lacks_of_openParameters (h : cursor.openParameters = .error error) :
    cursor.Lacks .openParen := by
  obtain ⟨_ | ⟨token, rest⟩, index⟩ := cursor
  · exact nofun
  · rintro _ ⟨⟩ hkind
    rw [openParameters, if_pos hkind] at h
    cases h

end Cursor

/-- An expression that cannot be read fails by one of the rules. -/
theorem Fails.of_parseNested {levels : Nat} {cursor : Cursor} {error : ParseError}
    (h : Expr.parseNested levels cursor = .error error) : Fails levels cursor error := by
  induction levels generalizing cursor error with
  | zero =>
    cases h
    exact .tooDeep cursor
  | succ levels ih =>
    obtain ⟨_ | ⟨token, rest⟩, index⟩ := cursor
    · cases h
      exact .missing levels index
    simp only [Expr.parseNested] at h
    split at h
    · rename_i hkind
      split at h
      · rename_i hempty
        cases h
        rw [List.isEmpty_iff.mp hempty]
        exact .openAtEnd hkind
      · rcases Expr.bind_eq_error h with h | ⟨⟨e, after⟩, hinner, h⟩
        · exact .insideParens hkind (ih h)
        obtain ⟨inner, htakes, hderives⟩ := Expr.parseNested_sound hinner
        rcases Expr.bind_eq_error h with h | ⟨_, _, ⟨⟩⟩
        rw [closeParen_eq_error h]
        exact .notClosed hkind htakes hderives (lacks_of_closeParen h)
    · rename_i hkind
      cases h
      refine .wrong (fun hstarts => ?_) rfl nofun
      rwa [Token.StartsExpression, hkind] at hstarts
    · rename_i hkind
      split at h
      · rename_i hnone
        cases h
        refine .wrong (fun hstarts => ?_) rfl nofun
        rw [Token.StartsExpression, hkind] at hstarts
        exact hstarts hnone
      · rename_i op hop
        rcases Expr.bind_eq_error h with h | ⟨⟨lhs, after⟩, hleft, h⟩
        · exact .leftOperand hkind hop (ih h)
        obtain ⟨left, htakes, hderives⟩ := Expr.parseNested_sound hleft
        rcases Expr.bind_eq_error h with h | ⟨_, _, ⟨⟩⟩
        exact .rightOperand hkind hop htakes hderives (ih h)
    · rename_i hkind
      split at h
      · rename_i hnone
        cases h
        refine .wrong (fun hstarts => ?_) rfl nofun
        rw [Token.StartsExpression, hkind] at hstarts
        exact hstarts hnone
      · cases h
    · cases h
    · rename_i hkind
      split at h
      · rename_i hnone
        cases h
        refine .wrong (fun hstarts => ?_) rfl nofun
        rw [Token.StartsExpression, hkind] at hstarts
        exact hstarts hnone
      · rename_i hword
        rcases Expr.bind_eq_error h with h | ⟨⟨name, after⟩, hname, h⟩
        · rw [definedName_eq_error h]
          exact .noName hkind hword (lacks_of_definedName h)
        obtain ⟨defined, hdefined, _, htakes⟩ := definedName_eq_ok hname
        rcases Expr.bind_eq_error h with h | ⟨_, _, ⟨⟩⟩
        exact .definedValue hkind hword hdefined htakes (ih h)
      · rename_i hword
        rcases Expr.bind_eq_error h with h | ⟨list, hlist, h⟩
        · rw [openParameters_eq_error h]
          exact .noParameters hkind hword (lacks_of_openParameters h)
        obtain ⟨opening, hopen, htakes⟩ := openParameters_eq_ok hlist
        rcases Expr.bind_eq_error h with h | ⟨⟨names, after⟩, hnames, h⟩
        · exact .parameters hkind hword hopen htakes h
        obtain ⟨taken, closing, htaken, hclose, rfl, hdistinct, hend⟩ :=
          parameters_eq_ok List.nodup_nil hnames
        rcases Expr.bind_eq_error h with h | ⟨_, _, ⟨⟩⟩
        exact .body hkind hword hopen htakes ⟨taken, closing, htaken, hdistinct, hclose, rfl⟩ hend
          (ih h)

end LambdaArith
