import LambdaArith.Diagnostic
import LambdaArith.Proofs.SourceErrors
import LambdaArith.Proofs.Splitting

/-!
# Where errors stand in their source

An error is shown in its place by scanning the source once more. This finds the place of every error
of a source, unless there is nothing in the source, or the backend has refused something and does
not say for which part of it. A place is never empty and never goes beyond the end of the source,
its ends are between characters, and it is all on one line.
-/

namespace LambdaArith

namespace Token

variable {c : Char} {piece behind : List Char} {kind : TokenKind} {fault : LexFault}

/-- A letter or a digit is no blank. -/
theorem isBlank_of_isAlphanum (h : c.isAlphanum = true) : isBlank c = false := by
  refine Bool.eq_false_iff.mpr fun hblank => ?_
  simp only [isBlank, Bool.or_eq_true, decide_eq_true_eq] at hblank
  rcases hblank with (((rfl | rfl) | rfl) | rfl) | rfl <;> cases h

/-- A digit or a point is no blank. -/
theorem isBlank_of_isNumeric (h : isNumeric c = true) : isBlank c = false := by
  rw [isNumeric, Bool.or_eq_true, decide_eq_true_eq] at h
  rcases h with hdigit | rfl
  · exact isBlank_of_isAlphanum (by rw [Char.isAlphanum, hdigit, Bool.or_true])
  · rfl

/-- There are no blanks in a token. -/
theorem Fits.isBlank_of_mem (h : Fits kind piece behind) (hc : c ∈ piece) : isBlank c = false := by
  cases h with
  | openParen =>
    rw [List.mem_singleton.mp hc]
    rfl
  | closeParen =>
    rw [List.mem_singleton.mp hc]
    rfl
  | operator hoperator =>
    rw [List.mem_singleton.mp hc]
    rcases hoperator with rfl | rfl | rfl | rfl <;> rfl
  | keyword keyword =>
    have hletters : keyword.word.toList.all (fun d => !isBlank d) = true := by
      cases keyword <;> rfl
    have hletter := List.all_eq_true.mp hletters c hc
    rwa [Bool.not_eq_true'] at hletter
  | identifier hname =>
    obtain ⟨first, rest, htext, hfirst, hrest⟩ := hname.letters
    rw [htext] at hc
    rcases List.mem_cons.mp hc with rfl | hc
    · exact isBlank_of_isAlphanum (by rw [Char.isAlphanum, hfirst, Bool.true_or])
    · exact isBlank_of_isAlphanum (hrest c hc)
  | number _ hrun => exact isBlank_of_isNumeric (hrun c hc)

/-- There are no blanks in what is no token. -/
theorem Misfits.isBlank_of_mem (h : Misfits fault piece behind) (hc : c ∈ piece) :
    isBlank c = false := by
  cases h with
  | unrecognizedToken hblank =>
    rw [List.mem_singleton.mp hc]
    exact hblank
  | malformedNumber hrun => exact isBlank_of_isNumeric (hrun c hc)

/-- A piece of the source without blanks stands at the place. -/
def Place (source : String) (span : Span) : Prop :=
  ∃ before piece behind, Stands source.toList span before piece behind ∧ piece ≠ [] ∧
    ∀ c ∈ piece, isBlank c = false

/-- A piece that stands in a text ends within it. -/
theorem Stands.stop_le {source before : List Char} {span : Span}
    (h : Stands source span before piece behind) : span.stop ≤ byteLength source := by
  rw [h.place, h.text, Span.covering_stop, byteLength_append, byteLength_append]
  omega

/-- The tokens of a source split it. -/
theorem splits_of_ofSource {source : String} {tokens : List Token}
    (h : ofSource source = .ok tokens) : Splits source.toList 0 tokens none := by
  unfold ofSource at h
  split at h
  · rename_i hscan
    cases h
    exact (splits_iff_scanAll [] source.toList tokens none).mpr hscan
  · cases h

/-- The error of a source is where it is not split further. -/
theorem splits_of_ofSource_error {source : String} {error : LexError}
    (h : ofSource source = .error error) : ∃ tokens, Splits source.toList 0 tokens (some error) := by
  unfold ofSource at h
  split at h
  · cases h
  · rename_i tokens _ hscan
    cases h
    exact ⟨tokens, (splits_iff_scanAll [] source.toList tokens (some error)).mpr hscan⟩

/-- A token of a source stands where its span is. -/
theorem exists_stands_of_mem {source : String} {tokens : List Token}
    (h : ofSource source = .ok tokens) {token : Token} (htoken : token ∈ tokens) :
    ∃ before behind, Stands source.toList token.span before token.lexeme.toList behind :=
  have ⟨before, behind, hstands, _⟩ := (splits_of_ofSource h).token token htoken
  ⟨before, behind, hstands⟩

/-- The span of a token of a source is a place. -/
theorem place_of_mem {source : String} {tokens : List Token} (h : ofSource source = .ok tokens)
    {token : Token} (htoken : token ∈ tokens) : Place source token.span := by
  obtain ⟨before, behind, hstands, hfits⟩ := (splits_of_ofSource h).token token htoken
  exact ⟨before, _, behind, hstands, hfits.ne_nil, fun _ => hfits.isBlank_of_mem⟩

/-- The span of the error of a source is a place. -/
theorem place_of_error {source : String} {error : LexError} (h : ofSource source = .error error) :
    Place source error.span := by
  obtain ⟨tokens, hsplits⟩ := splits_of_ofSource_error h
  obtain ⟨before, piece, behind, hstands, hmisfits⟩ := hsplits.fault error rfl
  exact ⟨before, piece, behind, hstands, hmisfits.ne_nil, fun _ => hmisfits.isBlank_of_mem⟩

end Token

open Token

/-- Where an error of a source is found, if it is found at all. -/
structure Error.Located (source : String) (error : Error) : Prop where
  /-- No place is found for a source without anything in it, nor for what the backend refuses. -/
  none_iff : error.locate source = none ↔
    error = .parse .nothingToParse ∨ ∃ refusal, error = .lowering (.backend refusal)
  /-- A place is some bytes of the source, from one character to another on the same line. -/
  within : ∀ span, error.locate source = some span →
    span.start < span.stop ∧ span.stop ≤ byteLength source.toList ∧
      ∃ before piece behind, Stands source.toList span before piece behind ∧ '\n' ∉ piece
  /-- What is no token stands where it has been met. -/
  lex : ∀ found, error = .lex found → error.locate source = some found.span
  /-- What the parser complains of stands at the token that it counts, or at the last token if it
  has counted all. -/
  parse : ∀ found offset, error = .parse found → found.offset? = some offset →
    ∃ tokens token, Token.ofSource source = .ok tokens ∧ offset ≤ tokens.length ∧
      error.locate source = some token.span ∧
      (tokens[offset]? = some token ∨ offset = tokens.length ∧ tokens.getLast? = some token)
  /-- A name that is not resolved is what stands at the place. -/
  unresolved : ∀ name, error = .lowering (.unresolvedIdentifier name) →
    ∃ span before behind, error.locate source = some span ∧
      Stands source.toList span before name.toList behind

namespace Error

variable {source : String} {error : Error}

/-- A place is within the source, and on one line. -/
theorem within_of_place {span : Span} (h : Place source span) :
    span.start < span.stop ∧ span.stop ≤ byteLength source.toList ∧
      ∃ before piece behind, Stands source.toList span before piece behind ∧ '\n' ∉ piece := by
  obtain ⟨before, piece, behind, hstands, hne, hblank⟩ := h
  refine ⟨hstands.lt hne, hstands.stop_le, before, piece, behind, hstands, fun hmem => ?_⟩
  have hnewline := hblank '\n' hmem
  cases hnewline

/-- What the parser complains of is found among the tokens, unless there are none. -/
theorem exists_locate_parse {tokens : List Token} {found : ParseError}
    (htokens : Token.ofSource source = .ok tokens) (h : parseProgram tokens = .error found)
    {offset : Nat} (hoffset : found.offset? = some offset) :
    ∃ token ∈ tokens, offset ≤ tokens.length ∧
      (Error.parse found).locate source = some token.span ∧
      (tokens[offset]? = some token ∨ offset = tokens.length ∧ tokens.getLast? = some token) := by
  have hle := (parseProgram_concerns h).offset_le hoffset
  have hlocate : (Error.parse found).locate source =
      (tokens[offset]?.or tokens.getLast?).map Token.span := by
    simp only [locate, htokens, hoffset]
  rw [hlocate]
  cases hget : tokens[offset]? with
  | some token => exact ⟨token, List.mem_of_getElem? hget, hle, rfl, .inl rfl⟩
  | none =>
    have hne : tokens ≠ [] := by
      rintro rfl
      cases h
      cases hoffset
    have hlast : tokens.getLast? = some (tokens.getLast hne) := List.getLast?_eq_some_getLast hne
    have hend : offset = tokens.length := Nat.le_antisymm hle (List.getElem?_eq_none_iff.mp hget)
    refine ⟨_, List.getLast_mem hne, hle, ?_, .inr ⟨hend, hlast⟩⟩
    rw [hlast]
    rfl

/-- A name of an expression of a source is the spelling of one of its identifiers. -/
theorem exists_token_of_name {exprs : List Expr} (h : parseSource source = .ok exprs) {e : Expr}
    (he : e ∈ exprs) {name : String} (hname : name ∈ e.names) :
    ∃ tokens, Token.ofSource source = .ok tokens ∧
      ∃ token ∈ tokens, token.kind = .identifier ∧ token.lexeme = name := by
  obtain ⟨tokens, htokens, hprogram⟩ := parseSource_eq_ok_iff.mp h
  obtain ⟨part, hderives, hpart⟩ := (parseProgram_eq_ok_iff.mp hprogram).2.exists_derives he
  obtain ⟨token, htoken, hword⟩ := List.mem_map.mp (hderives.mem_words hname)
  rw [word, Prod.mk.injEq] at hword
  exact ⟨tokens, htokens, token, hpart token htoken, hword⟩

/-- A name that is not resolved is found at the first identifier that is spelled so, if there is
one among the tokens. -/
theorem exists_locate_unresolved {tokens : List Token} {name : String}
    (htokens : Token.ofSource source = .ok tokens)
    (h : ∃ token ∈ tokens, token.kind = .identifier ∧ token.lexeme = name) :
    ∃ before first behind, tokens = before ++ first :: behind ∧ first.kind = .identifier ∧
      first.lexeme = name ∧
      (∀ other ∈ before, other.kind = .identifier → other.lexeme ≠ name) ∧
      (Error.lowering (.unresolvedIdentifier name)).locate source = some first.span := by
  obtain ⟨token, htoken, hkind, hlexeme⟩ := h
  have hsome : (tokens.find? fun token =>
      token.kind = .identifier && token.lexeme = name).isSome = true :=
    List.find?_isSome.mpr ⟨token, htoken, by simp [hkind, hlexeme]⟩
  obtain ⟨first, hfirst⟩ := Option.isSome_iff_exists.mp hsome
  have hlocate : (Error.lowering (.unresolvedIdentifier name)).locate source =
      some first.span := by
    simp only [locate, htokens, hfirst, Option.map_some]
  obtain ⟨hfound, before, behind, htokens, hbefore⟩ := List.find?_eq_some_iff_append.mp hfirst
  simp only [Bool.and_eq_true, decide_eq_true_eq] at hfound
  refine ⟨before, first, behind, htokens, hfound.1, hfound.2, ?_, hlocate⟩
  intro other hother hkind hspelled
  have hnot := hbefore other hother
  simp [hkind, hspelled] at hnot

/-- What is no token is found where the text is not split further. -/
theorem located_lex {found : LexError} (hlex : Token.ofSource source = .error found) :
    (Error.lex found).Located source := by
  have hplace := place_of_error hlex
  refine ⟨by simp [locate], ?_, ?_, nofun, nofun⟩
  · rintro span ⟨⟩
    exact within_of_place hplace
  · rintro _ ⟨⟩
    rfl

/-- What the parser complains of is found, unless there is nothing to parse. -/
theorem located_parse {tokens : List Token} {found : ParseError}
    (htokens : Token.ofSource source = .ok tokens) (hparse : parseProgram tokens = .error found) :
    (Error.parse found).Located source := by
  cases hoffset : found.offset? with
  | none =>
    have hnothing : found = .nothingToParse := by
      cases found <;> first | rfl | cases hoffset
    subst hnothing
    have hnone : (Error.parse .nothingToParse).locate source = none := by
      simp [locate, ParseError.offset?]
    refine ⟨by simp [hnone], ?_, nofun, ?_, nofun⟩
    · intro span hspan
      rw [hnone] at hspan
      cases hspan
    · rintro _ offset ⟨⟩ ⟨⟩
  | some offset =>
    obtain ⟨token, htoken, hle, hlocate, hwhich⟩ := exists_locate_parse htokens hparse hoffset
    refine ⟨?_, ?_, nofun, ?_, nofun⟩
    · rw [hlocate]
      refine ⟨nofun, ?_⟩
      rintro (hnothing | ⟨_, ⟨⟩⟩)
      cases hnothing
      cases hoffset
    · intro span hspan
      rw [hlocate, Option.some.injEq] at hspan
      exact within_of_place (hspan ▸ place_of_mem htokens htoken)
    · rintro _ other ⟨⟩ hother
      rw [hoffset, Option.some.injEq] at hother
      subst hother
      exact ⟨tokens, token, htokens, hle, hlocate, hwhich⟩

/-- What an expression of the source is not lowered for is found, unless the backend refuses it. -/
theorem located_lowering {exprs : List Expr} (h : parseSource source = .ok exprs) {e : Expr}
    (he : e ∈ exprs) {found : LoweringError} (hblames : e.Blames found) :
    (Error.lowering found).Located source := by
  cases found with
  | unresolvedIdentifier name =>
    obtain ⟨tokens, htokens, hspelled⟩ := exists_token_of_name h he hblames
    obtain ⟨before, token, behind, hparts, _, hlexeme, _, hlocate⟩ :=
      exists_locate_unresolved htokens hspelled
    have htoken : token ∈ tokens := by simp [hparts]
    refine ⟨by simp [hlocate], ?_, nofun, nofun, ?_⟩
    · intro span hspan
      rw [hlocate, Option.some.injEq] at hspan
      exact within_of_place (hspan ▸ place_of_mem htokens htoken)
    · rintro _ ⟨⟩
      obtain ⟨before, behind, hstands⟩ := exists_stands_of_mem htokens htoken
      exact ⟨_, before, behind, hlocate, hlexeme ▸ hstands⟩
  | repeatedParameter name =>
    exact absurd (Expr.writable_of_parseSource h he).parametersDistinct hblames
  | backend refusal => exact ⟨by simp [locate], nofun, nofun, nofun, nofun⟩

/-- Errors that arise from a source are found in it. -/
theorem Arises.located (h : error.Arises source) : error.Located source := by
  cases h with
  | lex hlex => exact located_lex hlex
  | parse htokens hparse => exact located_parse htokens hparse
  | lowering hparse he hblames => exact located_lowering hparse he hblames

end Error

namespace Module

/-- Whatever has been asked of a module, by operations and by sessions over it, an error that it
answers to a source is found in the source. -/
theorem compile_error_located (name : String) (requests : List Request) {source : String}
    {error : Error} (h : ((ofRequests name requests).compile source).result = .error error) :
    error.Located source :=
  have hm : (ofRequests name requests).Consistent :=
    consistent_invariant.ofRequests consistent_empty name requests
  (hm.arises_of_compile h).located

/-- The parameter of a function is not known behind it, and is found where it occurs first. -/
theorem compile_error_located_unknown_name :
    let source := "define f lambda (x) x x"
    ((ofRequests "m" []).compile source).result =
        .error (.lowering (.unresolvedIdentifier "x")) ∧
      (Error.lowering (.unresolvedIdentifier "x")).locate source = some ⟨17, 18⟩ ∧
      (Error.lowering (.unresolvedIdentifier "x")).Located source := by
  intro source
  have hfails : ((ofRequests "m" []).compile source).result =
      .error (.lowering (.unresolvedIdentifier "x")) := by
    decide +kernel
  exact ⟨hfails, by decide +kernel, compile_error_located "m" [] hfails⟩

end Module

end LambdaArith
