import LambdaArith.Proofs.Pieces

/-!
# How a source is split

What the tokens of a source have to be can be said without a scanner: they stand at places that
follow one another, each is a token where it stands, and nothing but blanks is left out, up to the
end of the source or to the first piece that is no token. Every source can be split in this way,
and in no other.
-/

namespace LambdaArith

variable {front text rest other behind : List Char}

namespace Token

variable {source before piece : List Char} {offset : Nat} {span : Span} {kind : TokenKind}
  {fault : LexFault} {token : Token} {tokens : List Token} {error : Option LexError}

/-- A span of a source is that of a piece which has some characters in front of it and some behind
it, so both its ends are between characters. -/
structure Stands (source : List Char) (span : Span) (before piece behind : List Char) : Prop where
  text : source = before ++ (piece ++ behind)
  place : span = .covering (byteLength before) piece

/-- The places of tokens and of the error behind them. -/
def places (tokens : List Token) (error : Option LexError) : List Span :=
  tokens.map Token.span ++ error.toList.map LexError.span

/-- A source is split, from a byte on, into these tokens, and ends at the error if there is one. -/
structure Splits (source : List Char) (offset : Nat) (tokens : List Token)
    (error : Option LexError) : Prop where
  /-- Every token stands in the source, as it is written, and is a token there. -/
  token : ∀ token ∈ tokens, ∃ before behind,
    Stands source token.span before token.lexeme.toList behind ∧
      Fits token.kind token.lexeme.toList behind
  /-- The error is about a piece of the source that is no token there. -/
  fault : ∀ e ∈ error, ∃ before piece behind,
    Stands source e.span before piece behind ∧ Misfits e.fault piece behind
  /-- No place is empty. -/
  nonempty : ∀ span ∈ places tokens error, span.start < span.stop
  /-- Everything stands behind the given byte. -/
  start : ∀ span ∈ places tokens error, offset ≤ span.start
  /-- Tokens come in their order, and the error behind all of them. -/
  ordered : (places tokens error).Pairwise fun a b => a.stop ≤ b.start
  /-- A character that belongs to no token, and stands in front of the error if there is one, is a
  blank. -/
  blank : ∀ before c behind, source = before ++ c :: behind → offset ≤ byteLength before →
    (∀ token ∈ tokens, ¬ (token.span.start ≤ byteLength before ∧
      byteLength before < token.span.stop)) →
    (∀ e ∈ error, byteLength before < e.span.start) → isBlank c = true

/-- Each token has its place. -/
theorem span_mem_places (h : token ∈ tokens) : token.span ∈ places tokens error := by
  rw [places, List.mem_append, List.mem_map]
  exact .inl ⟨token, h, rfl⟩

/-- The error has its place. -/
theorem error_mem_places {e : LexError} (h : e ∈ error) : e.span ∈ places tokens error := by
  rw [places, List.mem_append, List.mem_map]
  exact .inr (List.mem_map_of_mem (Option.mem_toList.mpr h))

/-- A piece at a place has the length of the place. -/
theorem Stands.lt (h : Stands source span before piece behind) (hne : piece ≠ []) :
    span.start < span.stop := by
  have hpos := byteLength_pos hne
  rw [h.place, Span.covering_start, Span.covering_stop]
  omega

/-- What stands behind a byte stands in the text behind it. -/
theorem Stands.exists_middle (h : Stands (front ++ text) span before piece behind)
    (hle : byteLength front ≤ span.start) :
    ∃ middle, text = middle ++ (piece ++ behind) ∧
      span.start = byteLength front + byteLength middle := by
  rw [h.place, Span.covering_start] at hle
  obtain ⟨middle, rfl, htext⟩ := LambdaArith.exists_middle h.text hle
  refine ⟨middle, htext, ?_⟩
  rw [h.place, Span.covering_start, byteLength_append]

/-- A place is settled by where it starts and by the piece that stands there. -/
theorem Stands.eq (h : Stands source span before piece behind) (hstart : span.start = offset) :
    span = .covering offset piece := by
  rw [h.place, Span.covering_start] at hstart
  rw [h.place, hstart]

section Places

variable {blanks tail : List Char}

/-- Tokens and errors start with something that is no blank. -/
theorem Splits.exists_stands (h : Splits source offset tokens error)
    (hspan : span ∈ places tokens error) :
    ∃ before c tail behind, Stands source span before (c :: tail) behind ∧ isBlank c = false := by
  rw [places, List.mem_append, List.mem_map, List.mem_map] at hspan
  rcases hspan with ⟨token, htoken, rfl⟩ | ⟨e, he, rfl⟩
  · obtain ⟨before, behind, hstands, hfits⟩ := h.token token htoken
    obtain ⟨c, tail, hpiece, hclass⟩ := hfits.exists_classify
    rw [hpiece] at hstands
    exact ⟨before, c, tail, behind, hstands, isBlank_of_classify hclass⟩
  · obtain ⟨before, piece, behind, hstands, hmisfits⟩ := h.fault e (Option.mem_toList.mp he)
    obtain ⟨c, tail, rfl, hblank, _⟩ := hmisfits.exists_classify
    exact ⟨before, c, tail, behind, hstands, hblank⟩

/-- Tokens and errors stand behind the blanks. -/
theorem Splits.blanks_le (h : Splits (front ++ (blanks ++ tail)) (byteLength front) tokens error)
    (hblanks : ∀ c ∈ blanks, isBlank c = true) (hspan : span ∈ places tokens error) :
    byteLength front + byteLength blanks ≤ span.start := by
  obtain ⟨before, c, others, behind, hstands, hc⟩ := h.exists_stands hspan
  obtain ⟨middle, htext, hstart⟩ := hstands.exists_middle (h.start span hspan)
  refine Nat.le_of_not_lt fun hlt => ?_
  have hle : byteLength middle ≤ byteLength blanks := by omega
  obtain ⟨inner, rfl, hinner⟩ := LambdaArith.exists_middle htext.symm hle
  cases inner with
  | nil =>
    rw [List.append_nil] at hlt
    omega
  | cons d inner =>
    have hd : isBlank d = true := hblanks d (by simp)
    rw [List.cons_append, List.cons_append, List.cons.injEq] at hinner
    rw [← hinner.1, hc] at hd
    cases hd

/-- What stands right behind the blanks is what follows them. -/
theorem Stands.eq_append (h : Stands (front ++ (blanks ++ tail)) span before piece behind)
    (hstart : span.start = byteLength front + byteLength blanks) : tail = piece ++ behind := by
  obtain ⟨middle, htext, hmiddle⟩ := h.exists_middle (by omega)
  obtain ⟨inner, rfl, hinner⟩ := LambdaArith.exists_middle htext (by omega)
  rw [byteLength_append] at hmiddle
  cases inner with
  | nil => exact hinner
  | cons c inner =>
    have hpos := byteLength_pos (List.cons_ne_nil c inner)
    omega

/-- The first character behind the blanks starts a token or the error. -/
theorem Splits.exists_place {c : Char}
    (h : Splits (front ++ (blanks ++ c :: tail)) (byteLength front) tokens error)
    (hblanks : ∀ c ∈ blanks, isBlank c = true) (hc : isBlank c = false) :
    (∃ token ∈ tokens, token.span.start = byteLength front + byteLength blanks) ∨
      ∃ e ∈ error, e.span.start = byteLength front + byteLength blanks := by
  by_cases htoken : ∃ token ∈ tokens, token.span.start = byteLength front + byteLength blanks
  · exact .inl htoken
  by_cases herror : ∃ e ∈ error, e.span.start = byteLength front + byteLength blanks
  · exact .inr herror
  have hblank : isBlank c = true := by
    refine h.blank (front ++ blanks) c tail (by simp) ?_ ?_ ?_
    · rw [byteLength_append]
      omega
    · intro token hmem hcovers
      have hle := h.blanks_le hblanks (span_mem_places hmem)
      rw [byteLength_append] at hcovers
      exact htoken ⟨token, hmem, by omega⟩
    · intro e hmem
      have hle := h.blanks_le hblanks (error_mem_places hmem)
      rw [byteLength_append]
      have hne : e.span.start ≠ byteLength front + byteLength blanks :=
        fun heq => herror ⟨e, hmem, heq⟩
      omega
  rw [hc] at hblank
  cases hblank

variable (hblanks : ∀ c ∈ blanks, isBlank c = true)

include hblanks

/-- Whatever stands between the front and what follows the blanks is a blank. -/
theorem isBlank_of_lt {c : Char} (hsource : front ++ (blanks ++ tail) = before ++ c :: behind)
    (hle : byteLength front ≤ byteLength before)
    (hlt : byteLength before < byteLength front + byteLength blanks) : isBlank c = true := by
  obtain ⟨middle, rfl, htext⟩ := LambdaArith.exists_middle hsource hle
  rw [byteLength_append] at hlt
  obtain ⟨inner, rfl, hinner⟩ := LambdaArith.exists_middle htext.symm (by omega)
  cases inner with
  | nil =>
    rw [List.append_nil] at hlt
    omega
  | cons d inner =>
    obtain ⟨rfl, _⟩ := List.cons.inj hinner
    exact hblanks c (by simp)

/-- A text of blanks is split into nothing. -/
theorem splits_blanks_iff :
    Splits (front ++ blanks) (byteLength front) tokens error ↔ tokens = [] ∧ error = none := by
  constructor
  · intro h
    rw [← List.append_nil blanks] at h
    have hnone : places tokens error = [] := by
      refine List.eq_nil_iff_forall_not_mem.mpr fun span hspan => ?_
      obtain ⟨before, c, others, behind, hstands, _⟩ := h.exists_stands hspan
      have hle := h.blanks_le hblanks hspan
      obtain ⟨middle, htext, hstart⟩ := hstands.exists_middle (by omega)
      have hlength := congrArg byteLength htext
      have hpos := byteLength_pos (List.cons_ne_nil c others)
      rw [List.append_nil, byteLength_append, byteLength_append] at hlength
      omega
    simpa [places] using hnone
  · rintro ⟨rfl, rfl⟩
    refine ⟨by simp, by simp, by simp [places], by simp [places], by simp [places], ?_⟩
    intro before c behind hsource hle _ _
    obtain ⟨middle, _, rfl⟩ := LambdaArith.exists_middle hsource hle
    exact hblanks c (by simp)

/-- A text that starts with what is no token is split into nothing, and ends there. -/
theorem Misfits.splits_iff (h : Misfits fault piece rest) :
    Splits (front ++ (blanks ++ (piece ++ rest))) (byteLength front) tokens error ↔
      tokens = [] ∧
        error = some ⟨fault, .covering (byteLength front + byteLength blanks) piece⟩ := by
  constructor
  · intro hsplits
    obtain ⟨c, tail, rfl, hblank, _⟩ := h.exists_classify
    rcases hsplits.exists_place hblanks hblank with ⟨token, hmem, hstart⟩ | ⟨e, hmem, hstart⟩
    · obtain ⟨before, behind, hstands, hfits⟩ := hsplits.token token hmem
      exact absurd h (hfits.not_misfits (hstands.eq_append hstart).symm)
    obtain ⟨before, piece, behind, hstands, hmisfits⟩ := hsplits.fault e hmem
    obtain ⟨hfault, hpiece⟩ := h.unique hmisfits (hstands.eq_append hstart)
    have herror : e = ⟨fault, .covering (byteLength front + byteLength blanks) (c :: tail)⟩ := by
      rw [hfault, hpiece, ← hstands.eq hstart]
    rw [← herror]
    refine ⟨?_, hmem⟩
    -- A token would have to end in front of the error, and so start among the blanks.
    refine List.eq_nil_iff_forall_not_mem.mpr fun token htoken => ?_
    have hle := hsplits.blanks_le hblanks (span_mem_places htoken)
    have hlt := hsplits.nonempty _ (span_mem_places htoken)
    have hordered := (List.pairwise_append.mp hsplits.ordered).2.2 token.span
      (List.mem_map_of_mem htoken) e.span (by simp [Option.mem_def.mp hmem])
    omega
  · rintro ⟨rfl, rfl⟩
    have hstands : Stands (front ++ (blanks ++ (piece ++ rest)))
        (.covering (byteLength front + byteLength blanks) piece) (front ++ blanks) piece rest :=
      ⟨by simp, by rw [byteLength_append]⟩
    refine ⟨by simp, ?_, ?_, by simp [places], by simp [places], ?_⟩
    · rintro e ⟨⟩
      exact ⟨_, _, _, hstands, h⟩
    · simpa [places] using hstands.lt h.ne_nil
    · intro before c behind hsource hle _ hfront
      exact isBlank_of_lt hblanks hsource hle (hfront _ rfl)

/-- A text that starts with a token has it as its first one. -/
theorem Fits.exists_tokens (h : Fits kind piece rest)
    (hsplits : Splits (front ++ (blanks ++ (piece ++ rest))) (byteLength front) tokens error) :
    ∃ others, tokens = ⟨kind, String.ofList piece,
      .covering (byteLength front + byteLength blanks) piece⟩ :: others := by
  have hplace : ∃ token ∈ tokens,
      token.span.start = byteLength front + byteLength blanks := by
    obtain ⟨c, tail, rfl, hclass⟩ := h.exists_classify
    rcases hsplits.exists_place hblanks (isBlank_of_classify hclass) with
      htoken | ⟨e, hmem, hstart⟩
    · exact htoken
    · obtain ⟨before, piece, behind, hstands, hmisfits⟩ := hsplits.fault e hmem
      exact absurd hmisfits (h.not_misfits (hstands.eq_append hstart))
  obtain ⟨token, hmem, hstart⟩ := hplace
  obtain ⟨before, behind, hstands, hfits⟩ := hsplits.token token hmem
  obtain ⟨hkind, hpiece⟩ := h.unique hfits (hstands.eq_append hstart)
  have htoken : token = ⟨kind, String.ofList piece,
      .covering (byteLength front + byteLength blanks) piece⟩ := by
    rw [hkind, hpiece, String.ofList_toList, ← hstands.eq hstart]
  rw [← htoken]
  cases tokens with
  | nil => cases hmem
  | cons first others =>
    rcases List.mem_cons.mp hmem with rfl | hothers
    · exact ⟨others, rfl⟩
    · -- A token in front of this one would have to end among the blanks.
      have hbehind := (List.pairwise_cons.mp hsplits.ordered).1 token.span (span_mem_places hothers)
      have hle := hsplits.blanks_le hblanks (span_mem_places List.mem_cons_self)
      have hnonempty := hsplits.nonempty _ (span_mem_places List.mem_cons_self)
      omega

/-- A text that starts with a token is split into it and into what stands behind it. -/
theorem Fits.splits_cons (h : Fits kind piece rest)
    (hrest : Splits (front ++ (blanks ++ (piece ++ rest)))
      (byteLength front + byteLength blanks + byteLength piece) tokens error) :
    Splits (front ++ (blanks ++ (piece ++ rest))) (byteLength front)
      (⟨kind, String.ofList piece,
        .covering (byteLength front + byteLength blanks) piece⟩ :: tokens) error := by
  have hstands : Stands (front ++ (blanks ++ (piece ++ rest)))
      (.covering (byteLength front + byteLength blanks) piece) (front ++ blanks) piece rest :=
    ⟨by simp, by rw [byteLength_append]⟩
  refine ⟨?_, hrest.fault, ?_, ?_, List.pairwise_cons.mpr ⟨hrest.start, hrest.ordered⟩, ?_⟩
  · intro token htoken
    rcases List.mem_cons.mp htoken with rfl | htoken
    · refine ⟨front ++ blanks, rest, ?_⟩
      rw [String.toList_ofList]
      exact ⟨hstands, h⟩
    · exact hrest.token token htoken
  · intro span hspan
    rcases List.mem_cons.mp hspan with rfl | hspan
    · exact hstands.lt h.ne_nil
    · exact hrest.nonempty span hspan
  · intro span hspan
    rcases List.mem_cons.mp hspan with rfl | hspan
    · exact Nat.le_add_right _ _
    · have hle := hrest.start span hspan
      omega
  · intro before c behind hsource hle htokens hfront
    have hfirst := htokens _ List.mem_cons_self
    rw [Span.covering_start, Span.covering_stop] at hfirst
    by_cases hbehind : byteLength front + byteLength blanks + byteLength piece ≤ byteLength before
    · exact hrest.blank before c behind hsource hbehind
        (fun token htoken => htokens token (List.mem_cons_of_mem _ htoken)) hfront
    · exact isBlank_of_lt hblanks hsource hle (by omega)

end Places

/-- Behind its first token, a text is split into the others. -/
theorem Splits.of_cons (h : Splits source offset (token :: tokens) error) :
    Splits source token.span.stop tokens error := by
  obtain ⟨hnext, hordered⟩ := List.pairwise_cons.mp h.ordered
  refine ⟨fun other hother => h.token other (List.mem_cons_of_mem _ hother), h.fault,
    fun span hspan => h.nonempty span (List.mem_cons_of_mem _ hspan), hnext, hordered, ?_⟩
  intro before c behind hsource hle hothers hfront
  have hfirst := h.start _ (span_mem_places List.mem_cons_self)
  have hlt := h.nonempty _ (span_mem_places List.mem_cons_self)
  refine h.blank before c behind hsource (by omega) ?_ hfront
  intro other hother
  rcases List.mem_cons.mp hother with rfl | hother
  · omega
  · exact hothers other hother

/-- The scanner splits a text, and there is no other way to split it. -/
theorem splits_iff_scanAll (front text : List Char) (tokens : List Token)
    (error : Option LexError) :
    Splits (front ++ text) (byteLength front) tokens error ↔
      scanAll text (byteLength front) = (tokens, error) := by
  induction text using text_induction generalizing front tokens error with
  | blanks blanks hblanks =>
    rw [scanAll_blanks hblanks, splits_blanks_iff hblanks, Prod.mk.injEq]
    simp only [eq_comm]
  | token blanks kind piece rest hblanks hfits ih =>
    have hbehind := ih (front ++ blanks ++ piece)
    have htext : front ++ blanks ++ piece ++ rest = front ++ (blanks ++ (piece ++ rest)) := by simp
    rw [byteLength_append, byteLength_append, htext] at hbehind
    rw [hfits.scanAll hblanks, Prod.mk.injEq]
    constructor
    · intro hsplits
      obtain ⟨others, rfl⟩ := hfits.exists_tokens hblanks hsplits
      rw [(hbehind others error).mp hsplits.of_cons]
      exact ⟨rfl, rfl⟩
    · rintro ⟨rfl, rfl⟩
      exact hfits.splits_cons hblanks ((hbehind _ _).mpr rfl)
  | fault blanks fault piece rest hblanks hmisfits =>
    rw [hmisfits.scanAll hblanks, Misfits.splits_iff hblanks hmisfits, Prod.mk.injEq]
    simp only [eq_comm]

/-- What each scan answers, counted from zero, and the error that has been met by then: the tokens
one by one, then the error if there is one, and nothing from then on. -/
def answer (tokens : List Token) (error : Option LexError) (n : Nat) :
    Except LexError (Option Token) × Option LexError :=
  match tokens[n]?, error with
  | some token, _ => (.ok (some token), none)
  | none, none => (.ok none, none)
  | none, some e => (if n = tokens.length then .error e else .ok none, some e)

/-- Behind the first answer come those for the tokens that are left. -/
theorem map_answer_cons (times : Nat) :
    (List.range (times + 1)).map (answer (token :: tokens) error) =
      (.ok (some token), none) :: (List.range times).map (answer tokens error) := by
  rw [List.range_succ_eq_map, List.map_cons, List.map_map]
  have hfirst : answer (token :: tokens) error 0 = (.ok (some token), none) := by simp [answer]
  have hnext : answer (token :: tokens) error ∘ Nat.succ = answer tokens error := by
    funext n
    simp [answer]
  rw [hfirst, hnext]

/-- Behind the error nothing is found. -/
theorem map_answer_error (times : Nat) (e : LexError) :
    (List.range (times + 1)).map (answer [] (some e)) =
      (.error e, some e) :: List.replicate times (.ok none, some e) := by
  rw [List.range_succ_eq_map, List.map_cons, List.map_map]
  have hnext : answer [] (some e) ∘ Nat.succ = fun _ => (.ok none, some e) := by
    funext n
    simp [answer]
  rw [hnext, List.map_const', List.length_range]
  simp [answer]

end Token

namespace Scanner

/-- An error stays, and nothing is found behind it. -/
theorem scans_of_error (times : Nat) (rest : List Char) (offset : Nat) (e : LexError) :
    scans times ⟨rest, offset, some e⟩ = List.replicate times (.ok none, some e) := by
  induction times with
  | zero => rfl
  | succ times ih =>
    have hscan : scan ⟨rest, offset, some e⟩ = (.ok none, ⟨rest, offset, some e⟩) := by simp [scan]
    rw [scans, hscan]
    simp [ih, List.replicate_succ]

/-- One scan after the other answers with the tokens of the text and its error. -/
theorem scans_of_scanAll (times : Nat) {text : List Char} {offset : Nat} {tokens : List Token}
    {error : Option LexError} (h : Token.scanAll text offset = (tokens, error)) :
    scans times ⟨text, offset, none⟩ = (List.range times).map (Token.answer tokens error) := by
  induction times generalizing text offset tokens error with
  | zero => rfl
  | succ times ih =>
    rw [scans]
    cases hscan : Token.scan text offset with
    | finished =>
      rw [Token.scanAll_of_finished hscan, Prod.mk.injEq] at h
      obtain ⟨rfl, rfl⟩ := h
      have hend : Token.scanAll [] (offset + byteLength text) = ([], none) :=
        Token.scanAll_of_finished rfl
      simp [scan, hscan, ih hend, List.range_succ_eq_map, Token.answer]
    | fault e rest =>
      rw [Token.scanAll_of_fault hscan, Prod.mk.injEq] at h
      obtain ⟨rfl, rfl⟩ := h
      rw [Token.map_answer_error]
      simp [scan, hscan, scans_of_error]
    | found token rest =>
      rw [Token.scanAll_of_found hscan, Prod.mk.injEq] at h
      obtain ⟨rfl, rfl⟩ := h
      rw [Token.map_answer_cons, ← ih rfl]
      simp [scan, hscan]

/-- Scanning a source over and over answers with the tokens and the error that the source is split
into, and there is only one way to split it. -/
theorem scans_split_source (source : String) :
    ∃ tokens error, Token.Splits source.toList 0 tokens error ∧
      (∀ others other, Token.Splits source.toList 0 others other →
        others = tokens ∧ other = error) ∧
      ∀ times, scans times (ofSource source) =
        (List.range times).map (Token.answer tokens error) := by
  have hsplits := Token.splits_iff_scanAll [] source.toList
  refine ⟨_, _, (hsplits _ _).mpr rfl, ?_, fun times => scans_of_scanAll times rfl⟩
  intro others other hother
  have hscan := (hsplits _ _).mp hother
  exact ⟨congrArg Prod.fst hscan.symm, congrArg Prod.snd hscan.symm⟩

end Scanner

end LambdaArith
