import LambdaArith.Proofs.TokenClass

/-!
# The words of a text

What a text is read as, without the places: each word has a class and a spelling. The scanner
finds the words of a text wherever the text stands, and reports an error exactly if the text has
none.
-/

namespace LambdaArith

/-- The class of a token and how it is written. -/
abbrev Word : Type :=
  TokenKind × String

namespace Token

/-- A token without its place. -/
def word (token : Token) : Word :=
  (token.kind, token.lexeme)

/-- A text is made of these words, with nothing else than blanks around them, and each word takes
as much of the text as the scanner's rule for its first character says. -/
inductive Reads : List Char → List Word → Prop where
  | nil : Reads [] []
  | blank {c : Char} {rest : List Char} {words : List Word} (hblank : isBlank c = true)
      (hrest : Reads rest words) : Reads (c :: rest) words
  | token {c : Char} {rest : List Char} {words : List Word} {kind : TokenKind} {length : Nat}
      (hclass : classify c rest = (.ok kind, length)) (hrest : Reads (rest.drop length) words) :
      Reads (c :: rest) ((kind, String.ofList (c :: rest.take length)) :: words)

variable {text rest : List Char} {words : List Word} {c : Char} {offset length : Nat}
  {kind : TokenKind} {error : LexError} {token : Token} {tokens : List Token}

/-- Blanks in front of a text are skipped. -/
theorem Reads.of_dropWhile (h : Reads (text.dropWhile isBlank) words) : Reads text words := by
  induction text with
  | nil => exact h
  | cons c rest ih =>
    by_cases hblank : isBlank c = true
    · rw [List.dropWhile_cons_of_pos hblank] at h
      exact .blank hblank (ih h)
    · rwa [List.dropWhile_cons_of_neg hblank] at h

/-- Only blanks are left where the scanner finds the end of the text. -/
theorem scan_eq_finished (h : scan text offset = .finished) : text.dropWhile isBlank = [] := by
  unfold scan at h
  split at h
  · rename_i hnone
    exact hnone
  · dsimp only at h
    split at h <;> cases h

/-- At the end of a text there are no tokens. -/
theorem scanAll_of_finished (h : scan text offset = .finished) :
    scanAll text offset = ([], none) := by
  unfold scanAll
  split <;> simp_all

/-- An error ends the scan. -/
theorem scanAll_of_fault (h : scan text offset = .fault error rest) :
    scanAll text offset = ([], some error) := by
  unfold scanAll
  split <;> simp_all

/-- Behind a token that is found the scan goes on. -/
theorem scanAll_of_found (h : scan text offset = .found token rest) :
    scanAll text offset =
      (token :: (scanAll rest token.span.stop).1, (scanAll rest token.span.stop).2) := by
  rw [scanAll]
  split <;> simp_all

/-- The tokens of a text that has no error are its words. -/
theorem reads_of_scanAll (h : scanAll text offset = (tokens, none)) :
    Reads text (tokens.map word) := by
  induction text, offset using scanAll.induct generalizing tokens with
  | case1 text offset hscan =>
    rw [scanAll_of_finished hscan, Prod.mk.injEq] at h
    obtain ⟨rfl, _⟩ := h
    refine .of_dropWhile ?_
    rw [scan_eq_finished hscan]
    exact .nil
  | case2 text offset error rest hscan =>
    rw [scanAll_of_fault hscan, Prod.mk.injEq] at h
    cases h.2
  | case3 text offset token rest hscan tail error htail ih =>
    rw [scanAll_of_found hscan, htail, Prod.mk.injEq] at h
    obtain ⟨rfl, rfl⟩ := h
    obtain ⟨c, tail', length, htext, hclass, hlexeme, rfl⟩ := scan_eq_found hscan
    refine .of_dropWhile ?_
    rw [htext, List.map_cons, word, hlexeme]
    exact .token hclass (ih htail)

/-- A blank in front of a text only moves what stands behind it. -/
theorem scan_blank (h : isBlank c = true) :
    scan (c :: rest) offset = scan rest (offset + c.utf8Size) := by
  unfold scan
  rw [List.dropWhile_cons_of_pos h, List.takeWhile_cons_of_pos h]
  simp only [byteLength, Nat.add_assoc]

/-- The tokens behind a blank are those of the text without it. -/
theorem scanAll_blank (h : isBlank c = true) :
    scanAll (c :: rest) offset = scanAll rest (offset + c.utf8Size) := by
  have hscan : scan (c :: rest) offset = scan rest (offset + c.utf8Size) := scan_blank h
  cases hnext : scan rest (offset + c.utf8Size) with
  | finished => rw [scanAll_of_finished (hscan.trans hnext), scanAll_of_finished hnext]
  | fault error rest => rw [scanAll_of_fault (hscan.trans hnext), scanAll_of_fault hnext]
  | found token rest => rw [scanAll_of_found (hscan.trans hnext), scanAll_of_found hnext]

/-- A token that stands at the start of a text is found there. -/
theorem scan_of_classify (h : classify c rest = (.ok kind, length)) :
    ∃ token, scan (c :: rest) offset = .found token (rest.drop length) ∧
      token.word = (kind, String.ofList (c :: rest.take length)) := by
  have hblank : ¬ isBlank c = true := Bool.eq_false_iff.mp (isBlank_of_classify h)
  unfold scan
  rw [List.dropWhile_cons_of_neg hblank]
  dsimp only
  rw [h]
  exact ⟨_, rfl, rfl⟩

/-- The scanner finds the words of a text wherever it starts to count. -/
theorem Reads.scanAll (h : Reads text words) (offset : Nat) :
    ∃ tokens, scanAll text offset = (tokens, none) ∧ tokens.map word = words := by
  induction h generalizing offset with
  | nil => exact ⟨[], scanAll_of_finished rfl, rfl⟩
  | blank hblank _ ih =>
    rw [scanAll_blank hblank]
    exact ih _
  | token hclass _ ih =>
    obtain ⟨token, hscan, hword⟩ := @scan_of_classify _ _ offset _ _ hclass
    obtain ⟨tokens, htokens, hwords⟩ := ih token.span.stop
    refine ⟨token :: tokens, ?_, ?_⟩
    · rw [scanAll_of_found hscan, htokens]
    · rw [List.map_cons, hword, hwords]

/-- A text has no other words. -/
theorem Reads.unique {others : List Word} (h : Reads text words) (hothers : Reads text others) :
    words = others := by
  obtain ⟨tokens, hscan, rfl⟩ := h.scanAll 0
  obtain ⟨tokens', hscan', rfl⟩ := hothers.scanAll 0
  rw [hscan, Prod.mk.injEq] at hscan'
  rw [hscan'.1]

/-- The tokens of a source are its words. -/
theorem ofSource_eq_ok {source : String} (h : ofSource source = .ok tokens) :
    Reads source.toList (tokens.map word) := by
  unfold ofSource at h
  split at h
  · rename_i hscan
    cases h
    exact reads_of_scanAll hscan
  · cases h

/-- A source that is made of words has tokens. -/
theorem Reads.ofSource {source : String} (h : Reads source.toList words) :
    ∃ tokens, Token.ofSource source = .ok tokens ∧ tokens.map word = words := by
  obtain ⟨tokens, hscan, hwords⟩ := h.scanAll 0
  refine ⟨tokens, ?_, hwords⟩
  unfold Token.ofSource
  rw [hscan]

end Token

end LambdaArith
