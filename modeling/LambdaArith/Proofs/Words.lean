import LambdaArith.Operator
import LambdaArith.Proofs.Lexing

/-!
# How each kind of word is read

Parentheses, operators and keywords are read as such whatever stands behind them. A name or a
numeral goes on as far as it can, so it is read whole only in front of something that cannot be a
part of it.
-/

namespace LambdaArith

namespace Token

/-- A digit with digits behind it, and with at most one point among them. -/
structure IsNumeral (text : List Char) : Prop where
  digits : ∃ c rest, text = c :: rest ∧ c.isDigit = true ∧ ∀ d ∈ rest, isNumeric d = true
  point : text.count '.' ≤ 1

/-- What ends a name or a numeral in printed text: a space, a closing parenthesis, or the end of
the text. -/
def Delimited (text : List Char) : Prop :=
  ∀ c ∈ text.head?, c = ' ' ∨ c = ')'

variable {text rest : List Char} {words : List Word} {c : Char}

/-- Delimiters belong to no name and to no number. -/
theorem Delimited.stop {p : Char → Bool} (h : Delimited rest) (hspace : p ' ' = false)
    (hclose : p ')' = false) : ∀ c ∈ rest.head?, p c = false := by
  intro c hc
  rcases h c hc with rfl | rfl
  · exact hspace
  · exact hclose

/-- A token is a word. -/
theorem Fits.reads {kind : TokenKind} {piece : List Char} (hfits : Fits kind piece rest)
    (h : Reads rest words) : Reads (piece ++ rest) ((kind, String.ofList piece) :: words) := by
  obtain ⟨c, tail, rfl, hclass⟩ := hfits.exists_classify
  have hword := Reads.token hclass (by rwa [List.drop_left])
  rwa [List.take_left] at hword

/-- A character that is a token by itself is a word. -/
theorem Reads.single {kind : TokenKind} (hclass : classify c rest = (.ok kind, 0))
    (h : Reads rest words) : Reads (c :: rest) ((kind, String.ofList [c]) :: words) :=
  .token hclass h

/-- A space separates words. -/
theorem Reads.space (h : Reads rest words) : Reads (' ' :: rest) words :=
  .blank rfl h

/-- An operator is a word. -/
theorem Reads.operator (op : Operator) (h : Reads rest words) :
    Reads (op.symbol.toList ++ rest) ((.operator, op.symbol) :: words) := by
  have hfits : Fits .operator op.symbol.toList rest := by
    cases op <;> exact .operator (by decide)
  have hword := hfits.reads h
  rwa [String.ofList_toList] at hword

/-- A keyword is a word, also if letters or digits follow it. -/
theorem Reads.keyword (keyword : Keyword) (h : Reads rest words) :
    Reads (keyword.word.toList ++ rest) ((.keyword, keyword.word) :: words) := by
  have hword := (Fits.keyword keyword).reads h
  rwa [String.ofList_toList] at hword

/-- A name in front of a delimiter is a word. -/
theorem Reads.identifier {name : String} (hname : IsName name) (hrest : Delimited rest)
    (h : Reads rest words) : Reads (name.toList ++ rest) ((.identifier, name) :: words) := by
  have hword := (Fits.identifier hname (hrest.stop rfl rfl)).reads h
  rwa [String.ofList_toList] at hword

/-- A numeral in front of a delimiter is a word. -/
theorem Reads.number (hnumeral : IsNumeral text) (hrest : Delimited rest) (h : Reads rest words) :
    Reads (text ++ rest) ((.number, String.ofList text) :: words) := by
  obtain ⟨c, tail, rfl, hdigit, htail⟩ := hnumeral.digits
  have hrun : ∀ d ∈ c :: tail, isNumeric d = true := by
    simpa [isNumeric, hdigit] using htail
  exact (Fits.number (by simp) hrun hnumeral.point (hrest.stop rfl rfl)).reads h

/-- Every word of a text is a token in front of something. -/
theorem Reads.exists_fits (h : Reads text words) {word : Word} (hmem : word ∈ words) :
    ∃ behind, Fits word.1 word.2.toList behind := by
  induction h with
  | nil => cases hmem
  | blank _ _ ih => exact ih hmem
  | token hclass _ ih =>
    rcases List.mem_cons.mp hmem with rfl | hrest
    · have hfits := fits_of_classify hclass
      rw [← @String.toList_ofList (_ :: List.take _ _)] at hfits
      exact ⟨_, hfits⟩
    · exact ih hrest

/-- The identifiers of a text are names. -/
theorem Reads.isName (h : Reads text words) {name : String} (hmem : (.identifier, name) ∈ words) :
    IsName name := by
  obtain ⟨behind, hfits⟩ := h.exists_fits hmem
  have hname := hfits.isName
  rwa [String.ofList_toList] at hname

end Token

end LambdaArith
