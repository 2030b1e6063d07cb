/-!
# Tokens

The smallest pieces of source text. A token knows the bytes that it was read from, which
is of use only to show an error in its place.
-/

namespace LambdaArith

/-- A range of bytes of a text, from `start` up to and not including `stop`. -/
structure Span where
  start : Nat
  stop : Nat
deriving DecidableEq, Repr

/-- How many bytes a text takes in UTF-8. -/
def byteLength : List Char → Nat
  | [] => 0
  | c :: rest => c.utf8Size + byteLength rest

/-- The classes of tokens. -/
inductive TokenKind where
  | openParen
  | closeParen
  | identifier
  | number
  | operator
  | keyword
deriving DecidableEq, Repr

/-- The name of a class of tokens. -/
def TokenKind.name : TokenKind → String
  | openParen => "OpenParen"
  | closeParen => "CloseParen"
  | identifier => "Identifier"
  | number => "Number"
  | operator => "BinaryOperator"
  | keyword => "Keyword"

/-- A classified piece of text. -/
structure Token where
  kind : TokenKind
  lexeme : String
  span : Span
deriving DecidableEq, Repr

/-- The reserved words. -/
inductive Keyword where
  | define
  | lambda
deriving DecidableEq, Repr

namespace Keyword

/-- The keywords in the order in which they are looked for. -/
def all : List Keyword := [define, lambda]

/-- How the keyword is written. -/
def word : Keyword → String
  | define => "define"
  | lambda => "lambda"

/-- The keyword that is exactly this text. -/
def ofWord? (text : String) : Option Keyword :=
  all.find? fun keyword => keyword.word = text

/-- The first keyword that a text starts with, whatever comes behind it. -/
def leading? (text : List Char) : Option Keyword :=
  all.find? fun keyword => keyword.word.toList.isPrefixOf text

end Keyword

end LambdaArith
