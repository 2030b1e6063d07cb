import LambdaArith.Token

/-!
# From text to tokens

A `Scanner` walks once through a text. Each scan skips blanks and takes the longest word,
the longest run of digits and points, or a single character. A word that starts with a
keyword is cut after it, so `definex` is the keyword `define` and the name `x`. The first
thing that is no token ends the scan for good.
-/

namespace LambdaArith

/-- Why a piece of text is no token. -/
inductive LexFault where
  | unrecognizedToken
  | malformedNumber
deriving DecidableEq, Repr

/-- What is said about a piece of text that is no token. -/
def LexFault.message : LexFault → String
  | unrecognizedToken => "unrecognized token"
  | malformedNumber => "malformed number"

/-- A piece of text that is no token, and where it stands. -/
structure LexError where
  fault : LexFault
  span : Span
deriving DecidableEq, Repr

namespace Token

/-- The characters that separate tokens and are otherwise skipped: space, tab, carriage
return, line feed and form feed. -/
def isBlank (c : Char) : Bool :=
  c = ' ' || c = '\t' || c = '\r' || c = '\n' || c = '\x0c'

/-- The characters of a number. -/
def isNumeric (c : Char) : Bool :=
  c.isDigit || c = '.'

/-- The class of the token that starts with the character `c`, or why there is none, and
how many of the characters of `rest` belong to it. -/
def classify (c : Char) (rest : List Char) : Except LexFault TokenKind × Nat :=
  if c = '(' then (.ok .openParen, 0)
  else if c = ')' then (.ok .closeParen, 0)
  else if c.isAlpha then
    let word := rest.takeWhile Char.isAlphanum
    match Keyword.leading? (c :: word) with
    | some keyword => (.ok .keyword, keyword.word.length - 1)
    | none => (.ok .identifier, word.length)
  else if isNumeric c then
    let run := rest.takeWhile isNumeric
    if 1 < (c :: run).count '.' then (.error .malformedNumber, run.length)
    else (.ok .number, run.length)
  else if c = '+' || c = '-' || c = '*' || c = '/' then (.ok .operator, 0)
  else (.error .unrecognizedToken, 0)

/-- What a single scan of a text comes to. -/
inductive Scan where
  | finished
  | fault (error : LexError) (rest : List Char)
  | found (token : Token) (rest : List Char)
deriving DecidableEq, Repr

/-- Scans a text that starts at the byte `offset` of its source. -/
def scan (text : List Char) (offset : Nat) : Scan :=
  match text.dropWhile isBlank with
  | [] => .finished
  | c :: rest =>
    let start := offset + byteLength (text.takeWhile isBlank)
    let (result, length) := classify c rest
    let lexeme := c :: rest.take length
    let span := ⟨start, start + byteLength lexeme⟩
    match result with
    | .ok kind => .found ⟨kind, String.ofList lexeme, span⟩ (rest.drop length)
    | .error fault => .fault ⟨fault, span⟩ (rest.drop length)

/-- A token that is found takes what stands behind the blanks as its rule says. -/
theorem scan_eq_found {text rest : List Char} {offset : Nat} {token : Token}
    (h : scan text offset = .found token rest) :
    ∃ c tail length, text.dropWhile isBlank = c :: tail ∧
      classify c tail = (.ok token.kind, length) ∧
      token.lexeme = String.ofList (c :: tail.take length) ∧ rest = tail.drop length := by
  unfold scan at h
  split at h
  · cases h
  · rename_i c tail htext
    dsimp only at h
    split at h
    · rename_i kind hclass
      rw [Scan.found.injEq] at h
      obtain ⟨rfl, rfl⟩ := h
      exact ⟨c, tail, (classify c tail).2, htext, Prod.ext hclass rfl, rfl, rfl⟩
    · cases h

/-- A token takes at least one character. -/
theorem length_lt_of_scan_found {text rest : List Char} {offset : Nat} {token : Token}
    (h : scan text offset = .found token rest) : rest.length < text.length := by
  obtain ⟨c, tail, length, htext, _, _, rfl⟩ := scan_eq_found h
  have hdrop : (text.dropWhile isBlank).length ≤ text.length :=
    (List.dropWhile_suffix isBlank).length_le
  rw [htext, List.length_cons] at hdrop
  rw [List.length_drop]
  omega

/-- The tokens of a text up to its end or to its first error, and that error. -/
def scanAll (text : List Char) (offset : Nat) : List Token × Option LexError :=
  match _h : scan text offset with
  | .finished => ([], none)
  | .fault error _ => ([], some error)
  | .found token rest =>
    let (tokens, error) := scanAll rest token.span.stop
    (token :: tokens, error)
termination_by text.length
decreasing_by exact length_lt_of_scan_found ‹_›

/-- All tokens of a source, or its first error. -/
def ofSource (source : String) : Except LexError (List Token) :=
  match scanAll source.toList 0 with
  | (tokens, none) => .ok tokens
  | (_, some error) => .error error

end Token

/-- A place in a text that is being scanned, and the error that has ended the scan. -/
structure Scanner where
  rest : List Char
  offset : Nat
  error : Option LexError
deriving DecidableEq, Repr

namespace Scanner

/-- A scanner at the start of a source. -/
def ofSource (source : String) : Scanner :=
  ⟨source.toList, 0, none⟩

/-- The next token, or `none` at the end of the text. After an error has been reported
once, nothing more is found. -/
def scan (scanner : Scanner) : Except LexError (Option Token) × Scanner :=
  if scanner.error.isSome then (.ok none, scanner)
  else match Token.scan scanner.rest scanner.offset with
    | .finished => (.ok none, ⟨[], scanner.offset + byteLength scanner.rest, none⟩)
    | .fault error rest => (.error error, ⟨rest, error.span.stop, some error⟩)
    | .found token rest => (.ok (some token), ⟨rest, token.span.stop, none⟩)

/-- The results of a number of scans, each with the error that has been met by then. -/
def scans : Nat → Scanner → List (Except LexError (Option Token) × Option LexError)
  | 0, _ => []
  | times + 1, scanner =>
    let (result, next) := scanner.scan
    (result, next.error) :: scans times next

end Scanner

end LambdaArith
