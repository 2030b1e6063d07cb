import LambdaArith.Proofs.Grammar
import LambdaArith.Token.Scanner

/-!
# Programs

A program is a sequence of expressions that follow each other without anything between
them. It is read up to its end or up to the first place where no expression can be read;
what has been read before that place is not lost.
-/

namespace LambdaArith

/-- An expression takes at least one token. -/
theorem Expr.length_parseNested {levels : Nat} {cursor after : Cursor} {expr : Expr}
    (h : parseNested levels cursor = .ok (expr, after)) :
    after.rest.length < cursor.rest.length := by
  obtain ⟨tokens, htakes, hderives⟩ := parseNested_sound h
  have hpos : 0 < tokens.length := List.length_pos_iff.mpr hderives.ne_nil
  rw [htakes.rest_eq, List.length_append]
  omega

/-- An expression of a program, with the indices of its first and its last token. -/
structure Form where
  expr : Expr
  first : Nat
  last : Nat
deriving Repr

namespace Form

/-- The forms from a place on, up to the first error, and that error. -/
def readAll (cursor : Cursor) : List Form × Option ParseError :=
  if cursor.rest.isEmpty then ([], none)
  else match _h : Expr.parse cursor with
    | .error error => ([], some error)
    | .ok (expr, after) =>
      let (forms, error) := readAll after
      (⟨expr, cursor.index, after.index - 1⟩ :: forms, error)
termination_by cursor.rest.length
decreasing_by exact Expr.length_parseNested ‹_›

/-- The forms that a list of tokens starts with, and the error that keeps the rest from
being a program. -/
def ofTokens (tokens : List Token) : List Form × Option ParseError :=
  if tokens.isEmpty then ([], some .nothingToParse) else readAll (Cursor.ofTokens tokens 0)

end Form

/-- The expressions of a program given as tokens. -/
def parseProgram (tokens : List Token) : Except ParseError (List Expr) :=
  match Form.ofTokens tokens with
  | (forms, none) => .ok (forms.map Form.expr)
  | (_, some error) => .error error

end LambdaArith
