import LambdaArith.Proofs.Pieces

/-!
# Texts that follow each other

Blanks between two texts keep their tokens apart: what stands in front is scanned as if nothing
followed, and what stands behind as if it stood alone, only further on.
-/

namespace LambdaArith

/-- The place so many bytes further on. -/
def Span.shift (bytes : Nat) (span : Span) : Span :=
  ⟨span.start + bytes, span.stop + bytes⟩

/-- The token so many bytes further on. -/
def Token.shift (bytes : Nat) (token : Token) : Token :=
  { token with span := token.span.shift bytes }

/-- The error so many bytes further on. -/
def LexError.shift (bytes : Nat) (error : LexError) : LexError :=
  { error with span := error.span.shift bytes }

namespace Token

variable {text front rest piece : List Char} {c : Char} {offset : Nat} {kind : TokenKind}
  {tokens : List Token} {error : Option LexError}

/-- A piece further on has its place further on. -/
theorem covering_shift (offset bytes : Nat) (piece : List Char) :
    Span.covering (offset + bytes) piece = (Span.covering offset piece).shift bytes := by
  simp [Span.covering, Span.shift, Nat.add_right_comm]

/-- Where a text starts only shows in the places of its tokens and its error. -/
theorem scanAll_shift (text : List Char) (offset bytes : Nat) :
    scanAll text (offset + bytes) =
      ((scanAll text offset).1.map (shift bytes),
        (scanAll text offset).2.map (LexError.shift bytes)) := by
  induction text using text_induction generalizing offset with
  | blanks blanks hblanks => simp [scanAll_blanks hblanks]
  | token blanks kind piece rest hblanks hfits ih =>
    have hstart : offset + bytes + byteLength blanks = offset + byteLength blanks + bytes := by
      omega
    have hstop : offset + byteLength blanks + bytes + byteLength piece =
        offset + byteLength blanks + byteLength piece + bytes := by
      omega
    rw [hfits.scanAll hblanks, hfits.scanAll hblanks, hstart, hstop, ih, covering_shift]
    rfl
  | fault blanks fault piece rest hblanks hmisfits =>
    have hstart : offset + bytes + byteLength blanks = offset + byteLength blanks + bytes := by
      omega
    rw [hmisfits.scanAll hblanks, hmisfits.scanAll hblanks, hstart, covering_shift]
    rfl

/-- Blanks belong to no name and to no number. -/
theorem of_isBlank (h : isBlank c = true) : c.isAlphanum = false ∧ isNumeric c = false := by
  simp only [isBlank, Bool.or_eq_true, decide_eq_true_eq] at h
  rcases h with (((rfl | rfl) | rfl) | rfl) | rfl <;> decide

/-- A token stays one in front of another text which starts as the first one does, or with a
blank. -/
theorem Fits.of_head? {behind : List Char} (h : Fits kind piece rest)
    (hhead : ∀ c ∈ behind.head?, c ∈ rest.head? ∨ isBlank c = true) : Fits kind piece behind := by
  have hstop {p : Char → Bool} (hrest : ∀ c ∈ rest.head?, p c = false)
      (hblank : ∀ c, isBlank c = true → p c = false) : ∀ c ∈ behind.head?, p c = false :=
    fun c hc => (hhead c hc).elim (hrest c) (hblank c)
  cases h with
  | openParen => exact .openParen
  | closeParen => exact .closeParen
  | operator hc => exact .operator hc
  | keyword keyword => exact .keyword keyword
  | identifier hname hrest => exact .identifier hname (hstop hrest fun _ h => (of_isBlank h).1)
  | number hne hrun hpoint hrest =>
    exact .number hne hrun hpoint (hstop hrest fun _ h => (of_isBlank h).2)

/-- A token stays one if blanks and more are put behind the text. -/
theorem Fits.append_blank {behind : List Char} (h : Fits kind piece rest)
    (hblank : isBlank c = true) : Fits kind piece (rest ++ c :: behind) := by
  refine h.of_head? fun d hd => ?_
  cases rest with
  | nil =>
    cases hd
    exact .inr hblank
  | cons e rest => exact .inl hd

/-- Blanks in front of a text only move what stands behind them. -/
theorem scanAll_append_of_isBlank (h : ∀ c ∈ front, isBlank c = true) (offset : Nat) :
    scanAll (front ++ text) offset = scanAll text (offset + byteLength front) := by
  induction front generalizing offset with
  | nil => simp [byteLength]
  | cons c front ih =>
    rw [List.cons_append, scanAll_blank (h c List.mem_cons_self),
      ih (fun d hd => h d (List.mem_cons_of_mem _ hd)), byteLength, Nat.add_assoc]

/-- The tokens of a text with blanks and more behind it are those of the text and those of what
stands behind it. -/
theorem scanAll_append {blanks behind : List Char} (hne : blanks ≠ [])
    (hblanks : ∀ c ∈ blanks, isBlank c = true) (h : scanAll text offset = (tokens, none)) :
    let later := scanAll behind (offset + byteLength (text ++ blanks))
    scanAll (text ++ (blanks ++ behind)) offset = (tokens ++ later.1, later.2) := by
  induction text using text_induction generalizing offset tokens with
  | blanks front hfront =>
    rw [scanAll_blanks hfront, Prod.mk.injEq] at h
    obtain ⟨rfl, _⟩ := h
    rw [scanAll_append_of_isBlank hfront, scanAll_append_of_isBlank hblanks, byteLength_append,
      Nat.add_assoc]
    rfl
  | token front kind piece rest hfront hfits ih =>
    rw [hfits.scanAll hfront, Prod.mk.injEq] at h
    obtain ⟨rfl, hnone⟩ := h
    obtain ⟨c, others, rfl⟩ := List.exists_cons_of_ne_nil hne
    have hmore : Fits kind piece (rest ++ (c :: others ++ behind)) :=
      hfits.append_blank (hblanks c List.mem_cons_self)
    have hrest := ih (Prod.ext rfl hnone)
    have htext : front ++ (piece ++ rest) ++ (c :: others ++ behind) =
        front ++ (piece ++ (rest ++ (c :: others ++ behind))) := by
      simp
    have hlength : offset + byteLength front + byteLength piece +
        byteLength (rest ++ (c :: others)) =
          offset + byteLength (front ++ (piece ++ rest) ++ (c :: others)) := by
      simp only [byteLength_append]
      omega
    rw [htext, hmore.scanAll hfront, hrest, hlength]
    rfl
  | fault front fault piece rest hfront hmisfits =>
    rw [hmisfits.scanAll hfront] at h
    cases h

end Token

end LambdaArith
