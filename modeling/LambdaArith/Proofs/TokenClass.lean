import LambdaArith.Proofs.Runs
import LambdaArith.Token.Scanner

/-!
# What is a token

Whether a piece of text is a token depends on the piece itself and, for names and numbers, on what
stands right behind it, since these go on as far as they can. The scanner's rule for the first
character of a piece finds just these pieces, and refuses what is no token for one of two reasons.
-/

namespace LambdaArith

namespace Keyword

/-- No keyword leads a text exactly if the text starts with none. -/
theorem leading?_eq_none_iff {text : List Char} :
    leading? text = none ↔ ∀ keyword : Keyword, ¬ keyword.word.toList <+: text := by
  rw [leading?, List.find?_eq_none]
  constructor
  · intro hnone keyword hprefix
    refine hnone keyword ?_ (List.isPrefixOf_iff_prefix.mpr hprefix)
    cases keyword <;> decide
  · intro hfree keyword _ hprefix
    exact hfree keyword (List.isPrefixOf_iff_prefix.mp hprefix)

/-- A keyword that leads a text stands at its front. -/
theorem prefix_of_leading? {text : List Char} {keyword : Keyword}
    (h : leading? text = some keyword) : keyword.word.toList <+: text := by
  unfold leading? at h
  have hfront : keyword.word.toList.isPrefixOf text = true := by simpa using List.find?_some h
  exact List.isPrefixOf_iff_prefix.mp hfront

end Keyword

namespace Token

/-- A letter with letters and digits behind it, which does not start with a keyword. -/
structure IsName (name : String) : Prop where
  letters : ∃ c rest, name.toList = c :: rest ∧ c.isAlpha = true ∧
    ∀ d ∈ rest, d.isAlphanum = true
  free : ∀ keyword : Keyword, ¬ keyword.word.toList <+: name.toList

/-- A piece of text is a token of a class in front of `rest`. -/
inductive Fits : TokenKind → List Char → List Char → Prop where
  | openParen {rest : List Char} : Fits .openParen ['('] rest
  | closeParen {rest : List Char} : Fits .closeParen [')'] rest
  | operator {c : Char} {rest : List Char} (hc : c = '+' ∨ c = '-' ∨ c = '*' ∨ c = '/') :
      Fits .operator [c] rest
  /-- A keyword is taken off the front of whatever starts with it. -/
  | keyword {rest : List Char} (keyword : Keyword) : Fits .keyword keyword.word.toList rest
  /-- A name goes on up to something that is neither a letter nor a digit. -/
  | identifier {name : String} {rest : List Char} (hname : IsName name)
      (hstop : ∀ c ∈ rest.head?, c.isAlphanum = false) : Fits .identifier name.toList rest
  /-- A number goes on up to something that is neither a digit nor a point. -/
  | number {run rest : List Char} (hne : run ≠ []) (hrun : ∀ c ∈ run, isNumeric c = true)
      (hpoint : run.count '.' ≤ 1) (hstop : ∀ c ∈ rest.head?, isNumeric c = false) :
      Fits .number run rest

/-- A piece of text in front of `rest` is no token, for the reason given. -/
inductive Misfits : LexFault → List Char → List Char → Prop where
  /-- A character that is no blank, and that no token starts with, wherever it stands. -/
  | unrecognizedToken {c : Char} {rest : List Char} (hblank : isBlank c = false)
      (hnone : ∀ kind tail behind, ¬ Fits kind (c :: tail) behind) :
      Misfits .unrecognizedToken [c] rest
  /-- A run of digits and points with more than one point. -/
  | malformedNumber {run rest : List Char} (hrun : ∀ c ∈ run, isNumeric c = true)
      (hpoint : 1 < run.count '.') (hstop : ∀ c ∈ rest.head?, isNumeric c = false) :
      Misfits .malformedNumber run rest

variable {text rest piece : List Char} {c : Char} {length : Nat} {kind : TokenKind}
  {fault : LexFault}

/-- No token starts with a blank. -/
theorem classify_of_isBlank (h : isBlank c = true) :
    classify c rest = (.error .unrecognizedToken, 0) := by
  simp only [isBlank, Bool.or_eq_true, decide_eq_true_eq] at h
  rcases h with (((rfl | rfl) | rfl) | rfl) | rfl <;> rfl

/-- What a token starts with is no blank. -/
theorem isBlank_of_classify (h : classify c rest = (.ok kind, length)) : isBlank c = false := by
  refine Bool.eq_false_iff.mpr fun hblank => ?_
  rw [classify_of_isBlank hblank, Prod.mk.injEq] at h
  cases h.1

/-- A letter starts a keyword or a name. -/
theorem classify_of_isAlpha (h : c.isAlpha = true) :
    (∃ keyword, Keyword.leading? (c :: rest.takeWhile Char.isAlphanum) = some keyword ∧
      classify c rest = (.ok .keyword, keyword.word.length - 1)) ∨
    (Keyword.leading? (c :: rest.takeWhile Char.isAlphanum) = none ∧
      classify c rest = (.ok .identifier, (rest.takeWhile Char.isAlphanum).length)) := by
  have hopen : ¬ c = '(' := by
    rintro rfl
    cases h
  have hclose : ¬ c = ')' := by
    rintro rfl
    cases h
  cases hword : Keyword.leading? (c :: rest.takeWhile Char.isAlphanum) with
  | some keyword =>
    refine .inl ⟨keyword, rfl, ?_⟩
    simp only [classify, if_neg hopen, if_neg hclose, if_pos h, hword]
  | none =>
    refine .inr ⟨rfl, ?_⟩
    simp only [classify, if_neg hopen, if_neg hclose, if_pos h, hword]

/-- A digit is no letter. -/
theorem isAlpha_of_isDigit (h : c.isDigit = true) : c.isAlpha = false := by
  have hdigit : (decide (c.val ≥ '0'.val) && decide (c.val ≤ '9'.val)) = true := h
  have hletter : c.isAlpha = (decide (c.val ≥ 'A'.val ∧ c.val ≤ 'Z'.val) ||
      decide (c.val ≥ 'a'.val) && decide (c.val ≤ 'z'.val)) := rfl
  simp only [Bool.and_eq_true, decide_eq_true_eq, ge_iff_le, UInt32.le_iff_toNat_le] at hdigit
  rw [hletter, Bool.eq_false_iff]
  simp only [Bool.or_eq_true, Bool.and_eq_true, decide_eq_true_eq, ge_iff_le, ne_eq,
    UInt32.le_iff_toNat_le]
  have hnine : '9'.val.toNat = 57 := rfl
  have hupper : 'A'.val.toNat = 65 := rfl
  have hlower : 'a'.val.toNat = 97 := rfl
  omega

/-- A digit or a point is no letter and no parenthesis. -/
theorem of_isNumeric (h : isNumeric c = true) : c.isAlpha = false ∧ c ≠ '(' ∧ c ≠ ')' := by
  rw [isNumeric, Bool.or_eq_true, decide_eq_true_eq] at h
  rcases h with hdigit | rfl
  · refine ⟨isAlpha_of_isDigit hdigit, ?_, ?_⟩
    · rintro rfl
      cases hdigit
    · rintro rfl
      cases hdigit
  · decide

/-- A digit or a point starts a number. -/
theorem classify_of_isNumeric (h : isNumeric c = true) :
    classify c rest =
      if 1 < (c :: rest.takeWhile isNumeric).count '.' then
        (.error .malformedNumber, (rest.takeWhile isNumeric).length)
      else (.ok .number, (rest.takeWhile isNumeric).length) := by
  obtain ⟨hletter, hopen, hclose⟩ := of_isNumeric h
  simp only [classify, if_neg hopen, if_neg hclose, hletter, h, Bool.false_eq_true, if_false,
    if_true]

/-- There are no tokens without characters. -/
theorem Fits.ne_nil (h : Fits kind piece rest) : piece ≠ [] := by
  cases h with
  | openParen => simp
  | closeParen => simp
  | operator => simp
  | keyword keyword => cases keyword <;> decide
  | identifier hname =>
    obtain ⟨c, tail, htext, _⟩ := hname.letters
    simp [htext]
  | number hne => exact hne

/-- An identifier is a name. -/
theorem Fits.isName (h : Fits .identifier piece rest) : IsName (String.ofList piece) := by
  cases h with
  | identifier hname => rwa [String.ofList_toList]

/-- What the rule for its first character takes off a text is a token. -/
theorem fits_of_classify (h : classify c text = (.ok kind, length)) :
    Fits kind (c :: text.take length) (text.drop length) := by
  by_cases hletter : c.isAlpha = true
  · obtain ⟨run, behind, rfl, hrun, hstop⟩ := exists_run Char.isAlphanum text
    have hword := takeWhile_append_of_stop hrun hstop
    rcases @classify_of_isAlpha (run ++ behind) c hletter with
      ⟨keyword, hkeyword, hclass⟩ | ⟨hfree, hclass⟩
    · rw [hclass, Prod.mk.injEq, Except.ok.injEq] at h
      obtain ⟨rfl, rfl⟩ := h
      rw [hword] at hkeyword
      have hfront := (Keyword.prefix_of_leading? hkeyword).trans (List.prefix_append _ behind)
      have htake := List.prefix_iff_eq_take.mp hfront
      have hlength : keyword.word.toList.length = keyword.word.length - 1 + 1 := by
        cases keyword <;> rfl
      rw [hlength, List.cons_append, List.take_succ_cons] at htake
      rw [← htake]
      exact .keyword keyword
    · rw [hclass, hword, Prod.mk.injEq, Except.ok.injEq] at h
      obtain ⟨rfl, rfl⟩ := h
      rw [hword] at hfree
      have hname : IsName (String.ofList (c :: run)) := by
        refine ⟨⟨c, run, String.toList_ofList, hletter, hrun⟩, ?_⟩
        rw [String.toList_ofList]
        exact Keyword.leading?_eq_none_iff.mp hfree
      have hfits := Fits.identifier hname hstop
      rw [String.toList_ofList] at hfits
      rwa [List.take_left, List.drop_left]
  by_cases hnumeric : isNumeric c = true
  · obtain ⟨run, behind, rfl, hrun, hstop⟩ := exists_run isNumeric text
    rw [classify_of_isNumeric hnumeric, takeWhile_append_of_stop hrun hstop] at h
    split at h
    · cases h
    · rename_i hpoint
      cases h
      rw [List.take_left, List.drop_left]
      refine .number (List.cons_ne_nil c run) ?_ (Nat.le_of_not_lt hpoint) hstop
      simpa [hnumeric] using hrun
  -- Only characters that are tokens by themselves are left.
  simp only [classify, hletter, hnumeric, Bool.false_eq_true, if_false] at h
  split at h
  · rename_i hopen
    cases h
    rw [hopen]
    exact .openParen
  split at h
  · rename_i hclose
    cases h
    rw [hclose]
    exact .closeParen
  split at h
  · rename_i hoperator
    cases h
    refine .operator ?_
    simpa [or_assoc] using hoperator
  · cases h

/-- A token is what the rule for its first character takes off a text. -/
theorem Fits.exists_classify (h : Fits kind piece rest) :
    ∃ c tail, piece = c :: tail ∧ classify c (tail ++ rest) = (.ok kind, tail.length) := by
  cases h with
  | openParen => exact ⟨'(', [], rfl, rfl⟩
  | closeParen => exact ⟨')', [], rfl, rfl⟩
  | @operator c _ hc =>
    refine ⟨c, [], rfl, ?_⟩
    rcases hc with rfl | rfl | rfl | rfl <;> rfl
  | keyword keyword =>
    cases keyword with
    | define => exact ⟨'d', "efine".toList, rfl, rfl⟩
    | lambda => exact ⟨'l', "ambda".toList, rfl, rfl⟩
  | @identifier name _ hname hstop =>
    obtain ⟨c, tail, htext, hletter, htail⟩ := hname.letters
    have hword := takeWhile_append_of_stop htail hstop
    have hfree : Keyword.leading? (c :: tail) = none := by
      rw [← htext]
      exact Keyword.leading?_eq_none_iff.mpr hname.free
    refine ⟨c, tail, htext, ?_⟩
    rcases @classify_of_isAlpha (tail ++ rest) c hletter with ⟨keyword, hkeyword, _⟩ | ⟨_, hclass⟩
    · rw [hword, hfree] at hkeyword
      cases hkeyword
    · rw [hclass, hword]
  | number hne hrun hpoint hstop =>
    obtain ⟨c, tail, rfl⟩ := List.exists_cons_of_ne_nil hne
    have htail : ∀ d ∈ tail, isNumeric d = true := fun d hd => hrun d (List.mem_cons_of_mem _ hd)
    refine ⟨c, tail, rfl, ?_⟩
    rw [classify_of_isNumeric (hrun c List.mem_cons_self), takeWhile_append_of_stop htail hstop,
      if_neg (Nat.not_lt_of_le hpoint)]

/-- What the rule refuses is no token. -/
theorem misfits_of_classify (hblank : isBlank c = false)
    (h : classify c text = (.error fault, length)) :
    Misfits fault (c :: text.take length) (text.drop length) := by
  by_cases hletter : c.isAlpha = true
  · rcases @classify_of_isAlpha text c hletter with ⟨_, _, hclass⟩ | ⟨_, hclass⟩
    · rw [hclass] at h
      cases h
    · rw [hclass] at h
      cases h
  by_cases hnumeric : isNumeric c = true
  · obtain ⟨run, behind, rfl, hrun, hstop⟩ := exists_run isNumeric text
    rw [classify_of_isNumeric hnumeric, takeWhile_append_of_stop hrun hstop] at h
    split at h
    · rename_i hpoint
      cases h
      rw [List.take_left, List.drop_left]
      refine .malformedNumber ?_ hpoint hstop
      simpa [hnumeric] using hrun
    · cases h
  have hnone : ∀ kind tail behind, ¬ Fits kind (c :: tail) behind := by
    intro kind tail behind hfits
    obtain ⟨d, others, heq, hclass⟩ := hfits.exists_classify
    obtain ⟨rfl, rfl⟩ := List.cons.inj heq
    have hrule : classify c (tail ++ behind) = classify c text := by
      simp only [classify, hletter, hnumeric, Bool.false_eq_true, if_false]
    rw [hrule, h] at hclass
    cases hclass
  simp only [classify, hletter, hnumeric, Bool.false_eq_true, if_false] at h
  split at h
  · cases h
  split at h
  · cases h
  split at h
  · cases h
  · cases h
    exact .unrecognizedToken hblank hnone

/-- What is no token is refused. -/
theorem Misfits.exists_classify (h : Misfits fault piece rest) :
    ∃ c tail, piece = c :: tail ∧ isBlank c = false ∧
      classify c (tail ++ rest) = (.error fault, tail.length) := by
  cases h with
  | @unrecognizedToken c _ hblank hnone =>
    have hletter : ¬ c.isAlpha = true := by
      intro hletter
      rcases @classify_of_isAlpha rest c hletter with ⟨_, _, hclass⟩ | ⟨_, hclass⟩
      · exact hnone _ _ _ (fits_of_classify hclass)
      · exact hnone _ _ _ (fits_of_classify hclass)
    have hnumeric : ¬ isNumeric c = true := by
      intro hnumeric
      have hpoint : [c].count '.' ≤ 1 := List.count_le_length
      exact hnone .number [] [] (.number (by simp) (by simpa using hnumeric) hpoint (by simp))
    refine ⟨c, [], rfl, hblank, ?_⟩
    simp only [classify, List.nil_append, hletter, hnumeric, Bool.false_eq_true, if_false]
    split
    · rename_i hopen
      exact absurd (hopen ▸ Fits.openParen) (hnone .openParen [] [])
    split
    · rename_i hclose
      exact absurd (hclose ▸ Fits.closeParen) (hnone .closeParen [] [])
    split
    · rename_i hoperator
      refine absurd (Fits.operator ?_) (hnone .operator [] [])
      simpa [or_assoc] using hoperator
    · rfl
  | malformedNumber hrun hpoint hstop =>
    cases piece with
    | nil => simp at hpoint
    | cons c tail =>
      have hnumeric : isNumeric c = true := hrun c List.mem_cons_self
      have htail : ∀ d ∈ tail, isNumeric d = true := fun d hd => hrun d (List.mem_cons_of_mem _ hd)
      have hclass : classify c (tail ++ rest) = (.error .malformedNumber, tail.length) := by
        rw [classify_of_isNumeric hnumeric, takeWhile_append_of_stop htail hstop, if_pos hpoint]
      refine ⟨c, tail, rfl, ?_, hclass⟩
      refine Bool.eq_false_iff.mpr fun hblank => ?_
      rw [classify_of_isBlank hblank] at hclass
      cases hclass

end Token

end LambdaArith
