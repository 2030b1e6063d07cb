import LambdaArith.Proofs.Lexing

/-!
# The pieces of a text

Behind its blanks a text is at its end, or it starts with a token, or with something that is none.
Which of these it is, and how much of the text belongs to that piece, is settled by the text alone,
and a single scan finds it.
-/

namespace LambdaArith

variable {front text rest other behind : List Char}

/-- The bytes of a text are those of its parts. -/
theorem byteLength_append : byteLength (front ++ rest) = byteLength front + byteLength rest := by
  induction front with
  | nil => simp [byteLength]
  | cons c front ih =>
    rw [List.cons_append, byteLength, byteLength, ih]
    omega

/-- Every character takes a byte. -/
theorem byteLength_pos (h : text ≠ []) : 0 < byteLength text := by
  obtain ⟨c, tail, rfl⟩ := List.exists_cons_of_ne_nil h
  have hsize := Char.utf8Size_pos c
  rw [byteLength]
  omega

/-- Of two fronts of a text, the longer one goes on from the end of the other. -/
theorem exists_middle (h : front ++ rest = other ++ behind)
    (hle : byteLength front ≤ byteLength other) :
    ∃ middle, other = front ++ middle ∧ rest = middle ++ behind := by
  rcases List.append_eq_append_iff.mp h with hmiddle | ⟨middle, rfl, rfl⟩
  · exact hmiddle
  · rw [byteLength_append] at hle
    cases middle with
    | nil => simp
    | cons c middle =>
      have hpos := byteLength_pos (List.cons_ne_nil c middle)
      omega

/-- The place of a piece that starts at a byte. -/
def Span.covering (offset : Nat) (piece : List Char) : Span :=
  ⟨offset, offset + byteLength piece⟩

@[simp]
theorem Span.covering_start {offset : Nat} : (Span.covering offset text).start = offset := rfl

@[simp]
theorem Span.covering_stop {offset : Nat} :
    (Span.covering offset text).stop = offset + byteLength text := rfl

namespace Token

variable {piece : List Char} {offset : Nat} {kind : TokenKind} {fault : LexFault}

/-- What is no token is not empty. -/
theorem Misfits.ne_nil (h : Misfits fault piece rest) : piece ≠ [] := by
  obtain ⟨c, tail, rfl, _⟩ := h.exists_classify
  simp

/-- What holds of blanks, and of what starts behind blanks with a token or with something that is
none, holds of every text. -/
theorem text_induction {motive : List Char → Prop}
    (blanks : ∀ blanks : List Char, (∀ c ∈ blanks, isBlank c = true) → motive blanks)
    (token : ∀ (blanks : List Char) (kind : TokenKind) (piece rest : List Char),
      (∀ c ∈ blanks, isBlank c = true) → Fits kind piece rest → motive rest →
        motive (blanks ++ (piece ++ rest)))
    (fault : ∀ (blanks : List Char) (fault : LexFault) (piece rest : List Char),
      (∀ c ∈ blanks, isBlank c = true) → Misfits fault piece rest →
        motive (blanks ++ (piece ++ rest)))
    (text : List Char) : motive text := by
  obtain ⟨front, tail, htext, hfront, hstop⟩ := exists_run isBlank text
  cases tail with
  | nil =>
    rw [htext, List.append_nil]
    exact blanks front hfront
  | cons c rest =>
    rcases hclass : classify c rest with ⟨reason | kind, length⟩
    · have hmisfits := misfits_of_classify (hstop c rfl) hclass
      have hrest := fault front reason _ _ hfront hmisfits
      rwa [List.cons_append, List.take_append_drop, ← htext] at hrest
    · have hfits := fits_of_classify hclass
      have hrest := token front kind _ _ hfront hfits
        (text_induction blanks token fault (rest.drop length))
      rwa [List.cons_append, List.take_append_drop, ← htext] at hrest
termination_by text.length
decreasing_by
  rw [htext, List.length_drop, List.length_append, List.length_cons]
  omega

/-- What stands behind blanks is scanned as if they were not there. -/
theorem scan_append_of_isBlank (h : ∀ c ∈ text, isBlank c = true) :
    scan (text ++ rest) offset = scan rest (offset + byteLength text) := by
  induction text generalizing offset with
  | nil => simp [byteLength]
  | cons c text ih =>
    rw [List.cons_append, scan_blank (h c List.mem_cons_self),
      ih fun d hd => h d (List.mem_cons_of_mem _ hd), byteLength, Nat.add_assoc]

/-- A token is found behind blanks. -/
theorem Fits.scan (h : Fits kind piece rest) (hblanks : ∀ c ∈ front, isBlank c = true)
    (offset : Nat) :
    Token.scan (front ++ (piece ++ rest)) offset =
      .found ⟨kind, String.ofList piece, .covering (offset + byteLength front) piece⟩ rest := by
  obtain ⟨c, tail, rfl, hclass⟩ := h.exists_classify
  have hblank : ¬ isBlank c = true := Bool.eq_false_iff.mp (isBlank_of_classify hclass)
  rw [scan_append_of_isBlank hblanks, Token.scan, List.cons_append,
    List.dropWhile_cons_of_neg hblank, List.takeWhile_cons_of_neg hblank]
  simp [hclass, byteLength, Span.covering]

/-- What is no token is refused behind blanks. -/
theorem Misfits.scan (h : Misfits fault piece rest) (hblanks : ∀ c ∈ front, isBlank c = true)
    (offset : Nat) :
    Token.scan (front ++ (piece ++ rest)) offset =
      .fault ⟨fault, .covering (offset + byteLength front) piece⟩ rest := by
  obtain ⟨c, tail, rfl, hblank, hclass⟩ := h.exists_classify
  rw [scan_append_of_isBlank hblanks, Token.scan, List.cons_append,
    List.dropWhile_cons_of_neg (Bool.eq_false_iff.mp hblank),
    List.takeWhile_cons_of_neg (Bool.eq_false_iff.mp hblank)]
  simp [hclass, byteLength, Span.covering]

/-- There are no tokens among blanks. -/
theorem scanAll_blanks (h : ∀ c ∈ text, isBlank c = true) (offset : Nat) :
    scanAll text offset = ([], none) := by
  have hscan := @scan_append_of_isBlank text [] offset h
  rw [List.append_nil] at hscan
  exact scanAll_of_finished hscan

/-- The scan goes on behind a token. -/
theorem Fits.scanAll (h : Fits kind piece rest) (hblanks : ∀ c ∈ front, isBlank c = true)
    (offset : Nat) :
    let behind := Token.scanAll rest (offset + byteLength front + byteLength piece)
    Token.scanAll (front ++ (piece ++ rest)) offset =
      (⟨kind, String.ofList piece, .covering (offset + byteLength front) piece⟩ :: behind.1,
        behind.2) :=
  scanAll_of_found (h.scan hblanks offset)

/-- The scan ends at what is no token. -/
theorem Misfits.scanAll (h : Misfits fault piece rest) (hblanks : ∀ c ∈ front, isBlank c = true)
    (offset : Nat) :
    Token.scanAll (front ++ (piece ++ rest)) offset =
      ([], some ⟨fault, .covering (offset + byteLength front) piece⟩) :=
  scanAll_of_fault (h.scan hblanks offset)

/-- The rule for its first character settles what a text starts with. -/
theorem classify_unique {c c' : Char} {tail tail' rest' : List Char}
    {result result' : Except LexFault TokenKind}
    (h : classify c (tail ++ rest) = (result, tail.length))
    (h' : classify c' (tail' ++ rest') = (result', tail'.length))
    (htext : c :: tail ++ rest = c' :: tail' ++ rest') :
    result = result' ∧ c :: tail = c' :: tail' := by
  rw [List.cons_append, List.cons_append, List.cons.injEq] at htext
  obtain ⟨rfl, hbehind⟩ := htext
  rw [hbehind, h', Prod.mk.injEq] at h
  refine ⟨h.1.symm, ?_⟩
  rw [(List.append_inj hbehind h.2.symm).1]

/-- A text starts with one token only. -/
theorem Fits.unique {kind' : TokenKind} {piece' rest' : List Char} (h : Fits kind piece rest)
    (h' : Fits kind' piece' rest') (htext : piece ++ rest = piece' ++ rest') :
    kind = kind' ∧ piece = piece' := by
  obtain ⟨c, tail, rfl, hclass⟩ := h.exists_classify
  obtain ⟨c', tail', rfl, hclass'⟩ := h'.exists_classify
  simpa using classify_unique hclass hclass' htext

/-- A text is refused for one reason only. -/
theorem Misfits.unique {fault' : LexFault} {piece' rest' : List Char} (h : Misfits fault piece rest)
    (h' : Misfits fault' piece' rest') (htext : piece ++ rest = piece' ++ rest') :
    fault = fault' ∧ piece = piece' := by
  obtain ⟨c, tail, rfl, _, hclass⟩ := h.exists_classify
  obtain ⟨c', tail', rfl, _, hclass'⟩ := h'.exists_classify
  simpa using classify_unique hclass hclass' htext

/-- What starts with a token is not refused. -/
theorem Fits.not_misfits {piece' rest' : List Char} (h : Fits kind piece rest)
    (htext : piece ++ rest = piece' ++ rest') : ¬ Misfits fault piece' rest' := by
  intro h'
  obtain ⟨c, tail, rfl, hclass⟩ := h.exists_classify
  obtain ⟨c', tail', rfl, _, hclass'⟩ := h'.exists_classify
  simpa using classify_unique hclass hclass' htext

end Token

end LambdaArith
