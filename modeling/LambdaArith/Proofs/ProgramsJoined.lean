import LambdaArith.Error
import LambdaArith.Proofs.TextJoined
import LambdaArith.Proofs.TokensMoved

/-!
# Programs that follow each other

A program is read up to its end without a look at what follows, so two programs one behind the other
are the program of the expressions of both. An error in the second one stays the same error, only
further on.
-/

namespace LambdaArith

open Token

/-- The error in a text that stands so many bytes and tokens further on. -/
def Error.shift (bytes tokens : Nat) : Error → Error
  | lex error => lex (error.shift bytes)
  | parse error => parse (error.shift tokens)
  | lowering error => lowering error

namespace Form

variable {n : Nat} {cursor other after after' : Cursor} {tokens rest : List Token}
  {exprs : List Expr}

/-- Two programs one behind the other have the forms of both. -/
theorem readAll_append (h : DerivesEach tokens exprs) (rest : List Token) (index : Nat) :
    (readAll ⟨tokens ++ rest, index⟩).1.map expr =
        exprs ++ (readAll ⟨rest, index + tokens.length⟩).1.map expr ∧
      (readAll ⟨tokens ++ rest, index⟩).2 = (readAll ⟨rest, index + tokens.length⟩).2 := by
  induction h generalizing index with
  | nil => exact ⟨rfl, rfl⟩
  | @cons first others e exprs hfirst _ ih =>
    have hparse : Expr.parse ⟨first ++ (others ++ rest), index⟩ =
        .ok (e, ⟨others ++ rest, index + first.length⟩) :=
      hfirst.parseNested_of_le (Nat.le_refl maxNesting) index
    obtain ⟨hforms, herror⟩ := ih (index + first.length)
    rw [List.append_assoc, readAll_of_ok hparse, List.length_append, ← Nat.add_assoc]
    exact ⟨congrArg (e :: ·) hforms, herror⟩

/-- The forms of the same words are the same wherever they stand, and so is the error among them,
which is about a token. -/
theorem readAll_moved (h : cursor.Moved n other) :
    (readAll other).1.map expr = (readAll cursor).1.map expr ∧
      (readAll other).2 = (readAll cursor).2.map (ParseError.shift n) ∧
      (readAll cursor).2 ≠ some .nothingToParse := by
  induction cursor using readAll.induct generalizing other with
  | case1 cursor hempty =>
    have hnil := h.words
    rw [List.isEmpty_iff.mp hempty, List.map_nil, List.map_eq_nil_iff] at hnil
    rw [readAll, readAll, hnil, if_pos hempty]
    exact ⟨rfl, rfl, by simp⟩
  | case2 cursor hne error hparse =>
    have hrest : cursor.rest ≠ [] := fun hnil => hne (List.isEmpty_iff.mpr hnil)
    have hother : other.rest ≠ [] := by
      intro hnil
      have hwords := h.words
      rw [hnil, List.map_nil, eq_comm, List.map_eq_nil_iff] at hwords
      exact hrest hwords
    have hmoved := Expr.parseNested_moved maxNesting h
    unfold Expr.parse at hparse
    rw [hparse] at hmoved
    cases hresult : Expr.parseNested maxNesting other with
    | ok result =>
      rw [hresult] at hmoved
      cases hmoved
    | error error' =>
      rw [hresult] at hmoved
      cases hmoved with
      | error hshift hplaced =>
        rw [readAll_of_error hrest hparse, readAll_of_error hother hresult, hshift]
        exact ⟨rfl, rfl, fun heq => hplaced (Option.some.inj heq)⟩
  | case3 cursor hne e after hparse forms error hrest ih =>
    have hmoved := Expr.parseNested_moved maxNesting h
    have hparse' : Expr.parseNested maxNesting cursor = .ok (e, after) := hparse
    rw [hparse'] at hmoved
    cases hresult : Expr.parseNested maxNesting other with
    | error error' =>
      rw [hresult] at hmoved
      cases hmoved
    | ok result =>
      rw [hresult] at hmoved
      cases hmoved with
      | ok hsame =>
        obtain ⟨e', after'⟩ := result
        obtain ⟨hexpr, hafter⟩ := hsame
        dsimp only at hexpr hafter
        subst hexpr
        obtain ⟨hforms, herror, hplaced⟩ := ih hafter
        rw [readAll_of_ok hparse, readAll_of_ok hresult]
        exact ⟨congrArg (e' :: ·) hforms, herror, hplaced⟩

end Form

variable {tokens later others : List Token} {exprs : List Expr}

/-- What reading comes to behind the program of these expressions, so many bytes and tokens further
on. -/
def continued (exprs : List Expr) (bytes tokens : Nat) :
    Except Error (List Expr) → Except Error (List Expr)
  | .ok more => .ok (exprs ++ more)
  | .error (.parse .nothingToParse) => .ok exprs
  | .error error => .error (error.shift bytes tokens)

/-- Behind a program, an error stays an error unless there is nothing to parse. -/
theorem continued_error {error : Error} (hplaced : error ≠ .parse .nothingToParse)
    (bytes n : Nat) :
    continued exprs bytes n (.error error) = .error (error.shift bytes n) := by
  unfold continued
  split
  · rename_i heq
    cases heq
  · rename_i heq
    cases heq
    exact absurd rfl hplaced
  · rename_i heq
    cases heq
    rfl

/-- What reading tokens comes to behind a program. -/
theorem parseProgram_append (h : parseProgram tokens = .ok exprs)
    (hwords : later.map word = others.map word) (bytes : Nat) :
    (parseProgram (tokens ++ later)).mapError .parse =
      continued exprs bytes tokens.length ((parseProgram others).mapError .parse) := by
  obtain ⟨hne, hderives⟩ := parseProgram_eq_ok_iff.mp h
  by_cases hnone : others = []
  · rw [hnone, List.map_nil, List.map_eq_nil_iff] at hwords
    rw [hwords, hnone, List.append_nil, h]
    rfl
  have hne' : tokens ++ later ≠ [] := by simp [hne]
  obtain ⟨hforms, herror⟩ := Form.readAll_append hderives later 0
  have hmoved : Cursor.Moved tokens.length ⟨others, 0⟩ ⟨later, 0 + tokens.length⟩ := ⟨hwords, rfl⟩
  obtain ⟨hmore, hshift, hplaced⟩ := Form.readAll_moved hmoved
  rw [hmore] at hforms
  rw [hshift] at herror
  rcases hread : Form.readAll ⟨others, 0⟩ with ⟨forms, _ | error⟩
  · rw [hread] at hforms herror
    rw [parseProgram_of_readAll hnone hread, parseProgram_of_readAll hne' (Prod.ext rfl herror),
      hforms]
    rfl
  · rw [hread] at herror hplaced
    have hplaced : Error.parse error ≠ .parse .nothingToParse := by
      rintro ⟨⟩
      exact hplaced rfl
    rw [parseProgram_of_readAll_error hnone hread,
      parseProgram_of_readAll_error hne' (Prod.ext rfl herror)]
    exact (continued_error hplaced bytes tokens.length).symm

/-- A source is its tokens up to the first error, or the program of its tokens. -/
theorem parseSource_eq (source : String) :
    parseSource source = match scanAll source.toList 0 with
      | (tokens, none) => (parseProgram tokens).mapError .parse
      | (_, some error) => .error (.lex error) := by
  unfold parseSource Token.ofSource
  rcases scanAll source.toList 0 with ⟨tokens, _ | error⟩
  · dsimp only
    cases parseProgram tokens <;> rfl
  · rfl

/-- What reading a source comes to behind a program and blanks. -/
theorem parseSource_append {first blanks : String} (hne : blanks ≠ "")
    (hblanks : ∀ c ∈ blanks.toList, isBlank c = true) (htokens : Token.ofSource first = .ok tokens)
    (hparse : parseProgram tokens = .ok exprs) (second : String) :
    parseSource (first ++ blanks ++ second) =
      continued exprs (byteLength (first ++ blanks).toList) tokens.length
        (parseSource second) := by
  have hscan : scanAll first.toList 0 = (tokens, none) := by
    unfold Token.ofSource at htokens
    split at htokens
    · rename_i hscan
      cases htokens
      exact hscan
    · cases htokens
  have hblanks' : blanks.toList ≠ [] := by simpa using hne
  have hjoined := @scanAll_append _ _ _ _ second.toList hblanks' hblanks hscan
  dsimp only at hjoined
  rw [scanAll_shift] at hjoined
  rw [parseSource_eq, parseSource_eq, String.toList_append, String.toList_append, List.append_assoc,
    hjoined]
  rcases scanAll second.toList 0 with ⟨others, _ | error⟩
  · refine parseProgram_append hparse ?_ _
    rw [List.map_map]
    rfl
  · rfl

end LambdaArith
