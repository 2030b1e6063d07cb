import LambdaArith.Proofs.InputsJoined
import LambdaArith.Proofs.Words

/-!
# Spacing does not matter

Some tokens of a source stand right behind each other: a name behind a keyword, a number behind a
name. When all of them are set apart by blanks, and however many blanks these are, the source has
the same words, and so the same expressions, the same errors and the same effect on a module.
-/

namespace LambdaArith

namespace Token

/-- The lexemes stand one behind the other with only blanks around them, and with at least one blank
between any two. -/
inductive Spaced : List String → List Char → Prop where
  | blanks {gap : List Char} (hgap : ∀ c ∈ gap, isBlank c = true) : Spaced [] gap
  | lexeme {gap rest : List Char} {lexeme : String} {lexemes : List String}
      (hgap : ∀ c ∈ gap, isBlank c = true) (hrest : Spaced lexemes rest)
      (hapart : lexemes ≠ [] → ∃ c ∈ rest.head?, isBlank c = true) :
      Spaced (lexeme :: lexemes) (gap ++ (lexeme.toList ++ rest))

variable {text gap : List Char} {words : List Word} {lexemes : List String}

/-- Only a blank can stand right behind a lexeme. -/
theorem Spaced.isBlank_of_mem_head? (h : Spaced lexemes text)
    (hapart : lexemes ≠ [] → ∃ c ∈ text.head?, isBlank c = true) :
    ∀ c ∈ text.head?, isBlank c = true := by
  intro c hc
  cases h with
  | blanks hgap => exact hgap c (List.mem_of_mem_head? hc)
  | lexeme =>
    obtain ⟨d, hd, hblank⟩ := hapart (List.cons_ne_nil _ _)
    rwa [Option.mem_unique hc hd]

/-- Blanks in front of a text add no words to it. -/
theorem Reads.append_blanks (hgap : ∀ c ∈ gap, isBlank c = true) (h : Reads text words) :
    Reads (gap ++ text) words := by
  induction gap with
  | nil => exact h
  | cons c gap ih =>
    exact .blank (hgap c List.mem_cons_self) (ih fun d hd => hgap d (List.mem_cons_of_mem _ hd))

/-- Lexemes that are tokens in front of something are read when they are set apart, each as the
token that it has been. -/
theorem Spaced.reads (hfits : ∀ word ∈ words, ∃ behind, Fits word.1 word.2.toList behind)
    (h : Spaced (words.map Prod.snd) text) : Reads text words := by
  induction words generalizing text with
  | nil =>
    cases h with
    | @blanks gap hgap =>
      have hread := Reads.append_blanks hgap .nil
      rwa [List.append_nil] at hread
  | cons word words ih =>
    obtain ⟨kind, lexeme⟩ := word
    obtain ⟨behind, hfirst⟩ := hfits _ List.mem_cons_self
    cases h with
    | lexeme hgap hrest hapart =>
      have hmore := ih (fun other hother => hfits other (List.mem_cons_of_mem _ hother)) hrest
      have hset := hfirst.of_head? fun c hc => .inr (hrest.isBlank_of_mem_head? hapart c hc)
      have hread := (hset.reads hmore).append_blanks hgap
      rwa [String.ofList_toList] at hread

/-- The lexemes of a source are the same tokens when they are set apart. -/
theorem Spaced.exists_tokens {source respaced : String} {tokens : List Token}
    (htokens : ofSource source = .ok tokens)
    (h : Spaced (tokens.map Token.lexeme) respaced.toList) :
    ∃ others, ofSource respaced = .ok others ∧ others.map word = tokens.map word := by
  have hreads := ofSource_eq_ok htokens
  refine Reads.ofSource (Spaced.reads (fun word => hreads.exists_fits) ?_)
  rwa [List.map_map]

end Token

open Token

/-- An error that is no tokens further on is the same error. -/
theorem ParseError.shift_zero (error : ParseError) : error.shift 0 = error := by
  cases error <;> rfl

/-- A program depends on the words of its tokens only, and so does the error that keeps them from
being one. -/
theorem parseProgram_eq_of_words {tokens others : List Token}
    (h : others.map word = tokens.map word) : parseProgram others = parseProgram tokens := by
  by_cases hnone : tokens = []
  · rw [hnone, List.map_nil, List.map_eq_nil_iff] at h
    rw [h, hnone]
  have hnone' : others ≠ [] := by
    rintro rfl
    exact hnone (List.map_eq_nil_iff.mp h.symm)
  have hmoved : Cursor.Moved 0 ⟨tokens, 0⟩ ⟨others, 0⟩ := ⟨h, rfl⟩
  obtain ⟨hforms, herror, _⟩ := Form.readAll_moved hmoved
  rcases hread : Form.readAll ⟨tokens, 0⟩ with ⟨forms, _ | error⟩
  · rw [hread] at hforms herror
    rw [parseProgram_of_readAll hnone hread, parseProgram_of_readAll hnone' (Prod.ext rfl herror),
      hforms]
  · rw [hread, Option.map_some, ParseError.shift_zero] at herror
    rw [parseProgram_of_readAll_error hnone hread,
      parseProgram_of_readAll_error hnone' (Prod.ext rfl herror)]

/-- Sources with the same words are the same program, or fail to be one in the same way. -/
theorem parseSource_eq_of_words {source other : String} {tokens others : List Token}
    (htokens : Token.ofSource source = .ok tokens) (hothers : Token.ofSource other = .ok others)
    (h : others.map word = tokens.map word) : parseSource other = parseSource source := by
  unfold parseSource
  rw [htokens, hothers]
  dsimp only
  rw [parseProgram_eq_of_words h]

/-- Sources that are the same program have the same effect on a module. -/
theorem Module.compile_eq_of_parseSource_eq (m : Module) {source other : String}
    (h : parseSource other = parseSource source) :
    (m.compile other).result = (m.compile source).result ∧
      (m.compile other).module = (m.compile source).module := by
  cases hparse : parseSource source with
  | error error =>
    obtain ⟨hresult, hmodule⟩ := compile_of_error (m := m) hparse
    obtain ⟨hresult', hmodule'⟩ := compile_of_error (m := m) (h.trans hparse)
    exact ⟨hresult'.trans hresult.symm, hmodule'.trans hmodule.symm⟩
  | ok exprs =>
    obtain ⟨hresult, hmodule⟩ := compile_of_ok (m := m) hparse
    obtain ⟨hresult', hmodule'⟩ := compile_of_ok (m := m) (h.trans hparse)
    exact ⟨hresult'.trans hresult.symm, hmodule'.trans hmodule.symm⟩

/-- A source that is made of tokens can be respaced: the same lexemes in the same order, with any
blanks around them and at least one between any two, are tokens of the same classes. They are read
as the same expressions or refused with the same error, and compiling them does the same to every
module. -/
theorem spacing_is_free {source respaced : String} {tokens : List Token}
    (htokens : Token.ofSource source = .ok tokens)
    (hspaced : Spaced (tokens.map Token.lexeme) respaced.toList) :
    (∃ others, Token.ofSource respaced = .ok others ∧
      others.map Token.kind = tokens.map Token.kind ∧
      others.map Token.lexeme = tokens.map Token.lexeme) ∧
    parseSource respaced = parseSource source ∧
    ∀ m : Module, (m.compile respaced).result = (m.compile source).result ∧
      (m.compile respaced).module = (m.compile source).module := by
  obtain ⟨others, hothers, hwords⟩ := hspaced.exists_tokens htokens
  have hparse := parseSource_eq_of_words htokens hothers hwords
  refine ⟨⟨others, hothers, ?_, ?_⟩, hparse, fun m => m.compile_eq_of_parseSource_eq hparse⟩
  · have hkinds := congrArg (List.map Prod.fst) hwords
    rwa [List.map_map, List.map_map] at hkinds
  · have hlexemes := congrArg (List.map Prod.snd) hwords
    rwa [List.map_map, List.map_map] at hlexemes

/-- A keyword that runs into a name may just as well be set apart from it. -/
theorem spacing_is_free_keyword_prefix :
    let source := "(definex 2)"
    let respaced := "\t( define\nx  2 )\r"
    (parseSource respaced).map (List.map Expr.text) = .ok ["(define x 2)"] ∧
      ∀ m : Module, (m.compile respaced).module = (m.compile source).module := by
  intro source respaced
  have htokens : Token.ofSource source = .ok [⟨.openParen, "(", ⟨0, 1⟩⟩,
      ⟨.keyword, "define", ⟨1, 7⟩⟩, ⟨.identifier, "x", ⟨7, 8⟩⟩, ⟨.number, "2", ⟨9, 10⟩⟩,
      ⟨.closeParen, ")", ⟨10, 11⟩⟩] := by
    decide +kernel
  have hblank {gap : List Char} (h : gap.all isBlank = true) : ∀ c ∈ gap, isBlank c = true :=
    List.all_eq_true.mp h
  have hend : Spaced [] ['\r'] := .blanks (hblank rfl)
  have hclose := @Spaced.lexeme [' '] _ ")" _ (hblank rfl) hend nofun
  have hnumber := @Spaced.lexeme [' ', ' '] _ "2" _ (hblank rfl) hclose fun _ => ⟨' ', rfl, rfl⟩
  have hname := @Spaced.lexeme ['\n'] _ "x" _ (hblank rfl) hnumber fun _ => ⟨' ', rfl, rfl⟩
  have hdefine := @Spaced.lexeme [' '] _ "define" _ (hblank rfl) hname fun _ => ⟨'\n', rfl, rfl⟩
  have hopen := @Spaced.lexeme ['\t'] _ "(" _ (hblank rfl) hdefine fun _ => ⟨' ', rfl, rfl⟩
  have hspaced : Spaced ["(", "define", "x", "2", ")"] respaced.toList := by
    simpa [respaced] using hopen
  obtain ⟨_, hparse, hcompile⟩ := spacing_is_free htokens hspaced
  refine ⟨?_, fun m => (hcompile m).2⟩
  rw [hparse]
  decide +kernel

end LambdaArith
