import LambdaArith.Session

/-!
# Showing errors in their place

Expressions do not know where they come from, so the place of an error is found by scanning
the source again: a parse error counts tokens, and an unresolved name is looked for among
them. Where a place is found, the line is shown with a mark under it.
-/

namespace LambdaArith

namespace Error

/-- The bytes of the source that an error is about. An offset behind the last token stands
for the last token. -/
def locate (source : String) : Error → Option Span
  | lex error => some error.span
  | parse error =>
    match Token.ofSource source, error.offset? with
    | .ok tokens, some offset => (tokens[offset]?.or tokens.getLast?).map Token.span
    | _, _ => none
  | lowering (.unresolvedIdentifier name) =>
    match Token.ofSource source with
    | .ok tokens =>
      (tokens.find? fun token => token.kind = .identifier && token.lexeme = name).map Token.span
    | .error _ => none
  | lowering _ => none

/-- The events of finding the place of an error, which scans the source if it has to. -/
def locateEvents (source : String) : Error → List Event
  | parse _ => Module.scanEvents source
  | lowering (.unresolvedIdentifier _) => Module.scanEvents source
  | _ => []

end Error

namespace Diagnostic

/-- Text in red. -/
def red (text : String) : String :=
  "\x1b[31m" ++ text ++ "\x1b[0m"

/-- Text in bold red. -/
def boldRed (text : String) : String :=
  "\x1b[1;31m" ++ text ++ "\x1b[0m"

/-- As many spaces. -/
def spaces (n : Nat) : String :=
  String.ofList (List.replicate n ' ')

/-- A horizontal line of this length. -/
def rule (n : Nat) : String :=
  String.ofList (List.replicate n '─')

/-- Cuts a text behind its first `bytes` bytes. -/
def splitBytes (bytes : Nat) : List Char → List Char × List Char
  | [] => ([], [])
  | c :: rest =>
    if bytes = 0 then ([], c :: rest)
    else
      let (front, back) := splitBytes (bytes - c.utf8Size) rest
      (c :: front, back)

/-- A piece of a line of text: the number of the line, counted from one, what stands before
the piece, the piece itself, and what stands behind it. -/
structure Excerpt where
  line : Nat
  before : List Char
  label : List Char
  after : List Char
deriving DecidableEq, Repr

/-- The piece of a source with these bytes. -/
def Excerpt.ofSpan (source : String) (span : Span) : Excerpt :=
  let (front, rest) := splitBytes span.start source.toList
  let (label, back) := splitBytes (span.stop - span.start) rest
  { line := front.count '\n' + 1
    before := (front.reverse.takeWhile fun c => c ≠ '\n').reverse
    label := label
    after := back.takeWhile fun c => c ≠ '\n' }

/-- The lines that show a piece of a source, with the message at the end of a stroke that
starts under its middle. Every character is as wide as it has bytes. -/
def block (name message : String) (excerpt : Excerpt) : List String :=
  let number := toString excerpt.line
  let margin := spaces number.length
  let before := byteLength excerpt.before
  let width := byteLength excerpt.label
  let after := byteLength excerpt.after
  let left := width / 2
  let right := width - left - 1
  [ margin ++ " ╭─[" ++ name ++ "]",
    margin ++ " │",
    number ++ " │ " ++ String.ofList excerpt.before ++ boldRed (String.ofList excerpt.label) ++
      String.ofList excerpt.after,
    margin ++ " ┆ " ++ spaces before ++ boldRed (rule left ++ "┬" ++ rule right) ++ spaces after,
    margin ++ " ┆ " ++ spaces before ++ boldRed (spaces left ++ "│" ++ spaces right) ++
      spaces after,
    margin ++ " ┆ " ++ spaces (before + left) ++ boldRed ("╰" ++ rule (right + after + 1)) ++
      " " ++ red message,
    rule (number.length + 1) ++ "╯" ]

/-- Whether some bytes of a source can be shown: there is at least one, and they are all
there. -/
def showable (source : String) (span : Span) : Bool :=
  span.start < span.stop && span.stop ≤ byteLength source.toList

/-- An error with its place in the source of the given name. -/
def render (name source : String) (error : Error) : String :=
  let shown := match error.locate source with
    | none => []
    | some span =>
      if showable source span then block name error.message (Excerpt.ofSpan source span) else []
  String.join (((boldRed "error" ++ ": " ++ error.message) :: shown).map fun line => line ++ "\n")

end Diagnostic

end LambdaArith
