import LambdaArith.Expr
import LambdaArith.Number.Numeral

/-!
# From tokens to expressions

Recursive descent over a list of tokens. Parentheses are not needed to delimit anything,
since every form knows how many parts it has, but each one that is opened around an
expression has to be closed right behind it. The nesting is bounded, and the bound is what
the recursion goes down on.
-/

namespace LambdaArith

/-- How many expressions may be nested in each other. -/
def maxNesting : Nat := 256

/-- Why tokens are no expression. Each `offset` is the index of the token in question, which
is the number of tokens where one is missing at the end. -/
inductive ParseError where
  | nothingToParse
  | missingExpression (offset : Nat)
  | malformedDefine (offset : Nat)
  | malformedLambda (offset : Nat)
  | repeatedParameter (name : String) (offset : Nat)
  | invalidNumber (lexeme : String) (offset : Nat)
  | unsupportedForm (offset : Nat)
  | unclosedParen (opening offset : Nat)
  | unexpectedCloseParen (offset : Nat)
  | tooDeep (offset : Nat)
deriving DecidableEq, Repr

namespace ParseError

/-- The index of the token that the error is about. -/
def offset? : ParseError → Option Nat
  | nothingToParse => none
  | missingExpression offset => some offset
  | malformedDefine offset => some offset
  | malformedLambda offset => some offset
  | repeatedParameter _ offset => some offset
  | invalidNumber _ offset => some offset
  | unsupportedForm offset => some offset
  | unclosedParen _ offset => some offset
  | unexpectedCloseParen offset => some offset
  | tooDeep offset => some offset

/-- What is said about the error. -/
def message : ParseError → String
  | nothingToParse => "nothing to parse"
  | missingExpression offset =>
    "expected an expression at token " ++ toString offset ++ ", found end of input"
  | malformedDefine _ => "define must be followed by an identifier"
  | malformedLambda _ => "lambda must be followed by a parenthesised list of identifiers"
  | repeatedParameter name _ => "parameter `" ++ name ++ "` is repeated"
  | invalidNumber lexeme _ => "invalid numeric literal `" ++ lexeme ++ "`"
  | unsupportedForm _ => "unsupported expression form"
  | unclosedParen opening _ =>
    "expected `)` to close the `(` at token " ++ toString opening
  | unexpectedCloseParen _ => "unexpected `)`"
  | tooDeep _ => "expression nested more than " ++ toString maxNesting ++ " levels deep"

end ParseError

/-- A place in a list of tokens: the tokens that follow, and the index of the first of
them. -/
structure Cursor where
  rest : List Token
  index : Nat
deriving DecidableEq, Repr

namespace Cursor

/-- The place in front of the token with the given index. -/
def ofTokens (tokens : List Token) (index : Nat) : Cursor :=
  ⟨tokens.drop index, index⟩

/-- Takes the parenthesis that closes the one with index `opening`. -/
def closeParen (opening : Nat) : Cursor → Except ParseError Cursor
  | ⟨[], index⟩ => .error (.unclosedParen opening index)
  | ⟨token :: rest, index⟩ =>
    if token.kind = .closeParen then .ok ⟨rest, index + 1⟩
    else .error (.unclosedParen opening index)

/-- Takes the name behind `define`. -/
def definedName : Cursor → Except ParseError (String × Cursor)
  | ⟨[], index⟩ => .error (.malformedDefine index)
  | ⟨token :: rest, index⟩ =>
    if token.kind = .identifier then .ok (token.lexeme, ⟨rest, index + 1⟩)
    else .error (.malformedDefine index)

/-- Takes the parenthesis behind `lambda`. -/
def openParameters : Cursor → Except ParseError Cursor
  | ⟨[], index⟩ => .error (.malformedLambda index)
  | ⟨token :: rest, index⟩ =>
    if token.kind = .openParen then .ok ⟨rest, index + 1⟩
    else .error (.malformedLambda index)

/-- Takes identifiers and the parenthesis behind them. They come after the parameters
`seen`, and none may be repeated. -/
def parameters (seen : List String) : List Token → Nat →
    Except ParseError (List String × Cursor)
  | [], index => .error (.malformedLambda index)
  | token :: rest, index =>
    if token.kind = .identifier then
      if token.lexeme ∈ seen then .error (.repeatedParameter token.lexeme index)
      else parameters (seen ++ [token.lexeme]) rest (index + 1)
    else if token.kind = .closeParen then .ok (seen, ⟨rest, index + 1⟩)
    else .error (.malformedLambda index)

end Cursor

namespace Expr

/-- Reads one expression that may be nested `levels` deep, and says where the next one would
start. -/
def parseNested : Nat → Cursor → Except ParseError (Expr × Cursor)
  | 0, cursor => .error (.tooDeep cursor.index)
  | _ + 1, ⟨[], index⟩ => .error (.missingExpression index)
  | levels + 1, ⟨token :: rest, index⟩ =>
    let next : Cursor := ⟨rest, index + 1⟩
    match token.kind with
    | .openParen =>
      if rest.isEmpty then .error (.unclosedParen index next.index)
      else do
        let (expr, after) ← parseNested levels next
        let after ← after.closeParen index
        return (expr, after)
    | .closeParen => .error (.unexpectedCloseParen index)
    | .operator =>
      match Operator.ofSymbol? token.lexeme with
      | none => .error (.unsupportedForm index)
      | some op => do
        let (lhs, after) ← parseNested levels next
        let (rhs, after) ← parseNested levels after
        return (.binary op lhs rhs, after)
    | .number =>
      match Numeral.read token.lexeme with
      | none => .error (.invalidNumber token.lexeme index)
      | some value => .ok (.number value, next)
    | .identifier => .ok (.identifier token.lexeme, next)
    | .keyword =>
      match Keyword.ofWord? token.lexeme with
      | none => .error (.unsupportedForm index)
      | some .define => do
        let (name, after) ← next.definedName
        let (value, after) ← parseNested levels after
        return (.define name value, after)
      | some .lambda => do
        let after ← next.openParameters
        let (parameters, after) ← Cursor.parameters [] after.rest after.index
        let (body, after) ← parseNested levels after
        return (.lambda parameters body, after)

/-- Reads one expression, and says where the next one would start. -/
def parse (cursor : Cursor) : Except ParseError (Expr × Cursor) :=
  parseNested maxNesting cursor

end Expr

end LambdaArith
