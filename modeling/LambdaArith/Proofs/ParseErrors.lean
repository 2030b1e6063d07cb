import LambdaArith.Proofs.Reprint

/-!
# What parse errors are about

The parser counts the tokens that it takes, and an error says at which of them it has been found.
That token is there, or the tokens have come to their end, and the reason that is given for the
error is true of it. Two reasons cannot be given for the tokens of a source, as what the scanner
takes for an operator or a keyword is one, and so can a third only for a point alone.
-/

namespace LambdaArith

namespace Cursor

variable {cursor after : Cursor} {tokens taken rest : List Token} {token : Token}
  {index opening : Nat} {error : ParseError}

/-- The place is one in a list of tokens, or its end. -/
structure In (cursor : Cursor) (tokens : List Token) : Prop where
  rest_eq : cursor.rest = tokens.drop cursor.index
  index_le : cursor.index ≤ tokens.length

/-- The token behind a place is that with its index. -/
theorem In.getElem?_eq (h : In ⟨token :: rest, index⟩ tokens) : tokens[index]? = some token := by
  have hfirst : (tokens.drop index)[0]? = some token := by
    rw [← h.rest_eq]
    rfl
  rwa [List.getElem?_drop, Nat.add_zero] at hfirst

/-- Where no token is left is the end. -/
theorem In.index_eq (h : In ⟨[], index⟩ tokens) : index = tokens.length :=
  Nat.le_antisymm h.index_le (List.drop_eq_nil_iff.mp h.rest_eq.symm)

/-- Behind what is taken from a list of tokens is a place in it. -/
theorem In.of_takes (h : cursor.In tokens) (htakes : cursor.Takes taken after) :
    after.In tokens := by
  have hdrop : tokens.drop cursor.index = taken ++ after.rest := h.rest_eq ▸ htakes.rest_eq
  have hlength := congrArg List.length hdrop
  have hle := h.index_le
  rw [List.length_drop, List.length_append] at hlength
  refine ⟨?_, ?_⟩
  · rw [htakes.index_eq, ← List.drop_drop, hdrop, List.drop_left]
  · rw [htakes.index_eq]
    omega

/-- Behind a token is the next place. -/
theorem In.next (h : In ⟨token :: rest, index⟩ tokens) : In ⟨rest, index + 1⟩ tokens :=
  h.of_takes takes_singleton

/-- What does not close a parenthesis is where it has to be closed. -/
theorem closeParen_eq_error (h : cursor.closeParen opening = .error error) :
    error = .unclosedParen opening cursor.index := by
  obtain ⟨rest, index⟩ := cursor
  cases rest with
  | nil =>
    cases h
    rfl
  | cons token rest =>
    simp only [closeParen] at h
    split at h
    · cases h
    · cases h
      rfl

/-- What is no name is where it has to stand. -/
theorem definedName_eq_error (h : cursor.definedName = .error error) :
    error = .malformedDefine cursor.index := by
  obtain ⟨rest, index⟩ := cursor
  cases rest with
  | nil =>
    cases h
    rfl
  | cons token rest =>
    simp only [definedName] at h
    split at h
    · cases h
    · cases h
      rfl

/-- What does not open a list of parameters is where it has to be opened. -/
theorem openParameters_eq_error (h : cursor.openParameters = .error error) :
    error = .malformedLambda cursor.index := by
  obtain ⟨rest, index⟩ := cursor
  cases rest with
  | nil =>
    cases h
    rfl
  | cons token rest =>
    simp only [openParameters] at h
    split at h
    · cases h
    · cases h
      rfl

end Cursor

/-- What an error says of a list of tokens is true. -/
def ParseError.Concerns (tokens : List Token) : ParseError → Prop
  | nothingToParse => tokens = []
  | missingExpression offset => offset = tokens.length
  | malformedDefine offset => offset ≤ tokens.length
  | malformedLambda offset => offset ≤ tokens.length
  | repeatedParameter name offset =>
    ∃ token, tokens[offset]? = some token ∧ token.kind = .identifier ∧ token.lexeme = name
  | invalidNumber lexeme offset =>
    ∃ token, tokens[offset]? = some token ∧ token.kind = .number ∧ token.lexeme = lexeme ∧
      Numeral.read lexeme = none
  | unsupportedForm offset =>
    ∃ token, tokens[offset]? = some token ∧
      (token.kind = .operator ∧ Operator.ofSymbol? token.lexeme = none ∨
        token.kind = .keyword ∧ Keyword.ofWord? token.lexeme = none)
  | unclosedParen opening offset =>
    (∃ token, tokens[opening]? = some token ∧ token.kind = .openParen) ∧ offset ≤ tokens.length
  | unexpectedCloseParen offset => ∃ token, tokens[offset]? = some token ∧ token.kind = .closeParen
  | tooDeep offset => offset ≤ tokens.length

/-- An error is about a token, or about the end of the tokens. -/
theorem ParseError.Concerns.offset_le {tokens : List Token} {error : ParseError}
    (h : error.Concerns tokens) {offset : Nat} (hoffset : error.offset? = some offset) :
    offset ≤ tokens.length := by
  have hlt : ∀ {token : Token}, tokens[offset]? = some token → offset ≤ tokens.length :=
    fun hget => Nat.le_of_lt (List.getElem?_eq_some_iff.mp hget).1
  cases error <;> cases hoffset
  case missingExpression => exact Nat.le_of_eq h
  case malformedDefine | malformedLambda | tooDeep => exact h
  case unclosedParen => exact h.2
  case repeatedParameter | invalidNumber | unsupportedForm | unexpectedCloseParen =>
    obtain ⟨_, hget, _⟩ := h
    exact hlt hget

/-- Errors in a list of parameters are about the tokens. -/
theorem Cursor.parameters_concerns {tokens rest : List Token} {index : Nat} {seen : List String}
    {error : ParseError} (hin : Cursor.In ⟨rest, index⟩ tokens)
    (h : Cursor.parameters seen rest index = .error error) : error.Concerns tokens := by
  induction rest generalizing seen index with
  | nil =>
    cases h
    exact hin.index_le
  | cons token rest ih =>
    simp only [parameters] at h
    split at h
    · rename_i hkind
      split at h
      · cases h
        exact ⟨token, hin.getElem?_eq, hkind, rfl⟩
      · exact ih hin.next h
    · split at h
      · cases h
      · cases h
        exact hin.index_le

namespace Expr

variable {levels : Nat} {cursor : Cursor} {tokens : List Token} {error : ParseError}

/-- What fails has failed at the first step, or behind it. -/
theorem bind_eq_error {α β ε : Type} {first : Except ε α} {next : α → Except ε β} {error : ε}
    (h : first.bind next = .error error) :
    first = .error error ∨ ∃ value, first = .ok value ∧ next value = .error error := by
  cases first with
  | error _ =>
    cases h
    exact .inl rfl
  | ok value => exact .inr ⟨value, rfl, h⟩

/-- What reads an expression and goes on behind it fails for what either of the two is about. -/
theorem concerns_of_bind {β : Type} {next : Expr × Cursor → Except ParseError β}
    (hnested : ∀ {cursor error}, cursor.In tokens → parseNested levels cursor = .error error →
      error.Concerns tokens)
    (hin : cursor.In tokens) (h : (parseNested levels cursor).bind next = .error error)
    (hnext : ∀ e after, Cursor.In after tokens → next (e, after) = .error error →
      error.Concerns tokens) : error.Concerns tokens := by
  rcases bind_eq_error h with h | ⟨⟨e, after⟩, hread, h⟩
  · exact hnested hin h
  · obtain ⟨_, htakes, _⟩ := parseNested_sound hread
    exact hnext e after (hin.of_takes htakes) h

/-- Errors in an expression are about the tokens. -/
theorem parseNested_concerns (hin : cursor.In tokens)
    (h : parseNested levels cursor = .error error) : error.Concerns tokens := by
  induction levels generalizing cursor error with
  | zero =>
    cases h
    exact hin.index_le
  | succ levels ih =>
    obtain ⟨rest, index⟩ := cursor
    cases rest with
    | nil =>
      cases h
      exact hin.index_eq
    | cons token rest =>
      have hnext := hin.next
      simp only [parseNested] at h
      split at h
      · rename_i hkind
        have hopen : ∃ token, tokens[index]? = some token ∧ token.kind = .openParen :=
          ⟨token, hin.getElem?_eq, hkind⟩
        split at h
        · cases h
          exact ⟨hopen, hnext.index_le⟩
        · refine concerns_of_bind ih hnext h fun _ _ hafter h => ?_
          rcases bind_eq_error h with h | ⟨_, _, ⟨⟩⟩
          rw [Cursor.closeParen_eq_error h]
          exact ⟨hopen, hafter.index_le⟩
      · rename_i hkind
        cases h
        exact ⟨token, hin.getElem?_eq, hkind⟩
      · rename_i hkind
        split at h
        · rename_i hnone
          cases h
          exact ⟨token, hin.getElem?_eq, .inl ⟨hkind, hnone⟩⟩
        · exact concerns_of_bind ih hnext h fun _ _ hafter h =>
            concerns_of_bind ih hafter h fun _ _ _ => nofun
      · rename_i hkind
        split at h
        · rename_i hnone
          cases h
          exact ⟨token, hin.getElem?_eq, hkind, rfl, hnone⟩
        · cases h
      · cases h
      · rename_i hkind
        split at h
        · rename_i hnone
          cases h
          exact ⟨token, hin.getElem?_eq, .inr ⟨hkind, hnone⟩⟩
        · rcases bind_eq_error h with h | ⟨⟨name, after⟩, hname, h⟩
          · rw [Cursor.definedName_eq_error h]
            exact hnext.index_le
          obtain ⟨_, _, _, htakes⟩ := Cursor.definedName_eq_ok hname
          exact concerns_of_bind ih (hnext.of_takes htakes) h fun _ _ _ => nofun
        · rcases bind_eq_error h with h | ⟨opened, hopened, h⟩
          · rw [Cursor.openParameters_eq_error h]
            exact hnext.index_le
          obtain ⟨_, _, htakes⟩ := Cursor.openParameters_eq_ok hopened
          have hlist := hnext.of_takes htakes
          rcases bind_eq_error h with h | ⟨⟨names, after⟩, hnames, h⟩
          · exact Cursor.parameters_concerns hlist h
          obtain ⟨_, _, _, _, _, _, htakes⟩ := Cursor.parameters_eq_ok List.nodup_nil hnames
          exact concerns_of_bind ih (hlist.of_takes htakes) h fun _ _ _ => nofun

end Expr

/-- Errors among the forms of a program are about its tokens. -/
theorem Form.readAll_concerns {cursor : Cursor} {tokens : List Token} {forms : List Form}
    {error : ParseError} (hin : cursor.In tokens) (h : readAll cursor = (forms, some error)) :
    error.Concerns tokens := by
  induction cursor using readAll.induct generalizing forms with
  | case1 cursor hempty =>
    rw [readAll, if_pos hempty, Prod.mk.injEq] at h
    cases h.2
  | case2 cursor hne found hparse =>
    rw [readAll_of_error (fun hnil => hne (List.isEmpty_iff.mpr hnil)) hparse, Prod.mk.injEq,
      Option.some.injEq] at h
    obtain ⟨_, rfl⟩ := h
    exact Expr.parseNested_concerns hin hparse
  | case3 cursor hne e after hparse later found hrest ih =>
    rw [readAll_of_ok hparse, Prod.mk.injEq] at h
    obtain ⟨_, htakes, _⟩ := Expr.parseNested_sound hparse
    exact ih (hin.of_takes htakes) (Prod.ext rfl h.2)

/-- What keeps tokens from being a program is about them. -/
theorem parseProgram_concerns {tokens : List Token} {error : ParseError}
    (h : parseProgram tokens = .error error) : error.Concerns tokens := by
  by_cases hne : tokens = []
  · subst hne
    cases h
    rfl
  · rcases hread : Form.readAll ⟨tokens, 0⟩ with ⟨forms, _ | found⟩
    · rw [parseProgram_of_readAll hne hread] at h
      cases h
    · rw [parseProgram_of_readAll_error hne hread, Except.error.injEq] at h
      subst h
      exact Form.readAll_concerns ⟨rfl, Nat.zero_le _⟩ hread

namespace Token

variable {token : Token} {behind : List Char}

/-- What the scanner takes for an operator is one. -/
theorem Fits.exists_operator (h : Fits .operator token.lexeme.toList behind) :
    ∃ op, Operator.ofSymbol? token.lexeme = some op := by
  generalize htext : token.lexeme.toList = piece at h
  cases h with
  | @operator c _ hc =>
    have hlexeme : token.lexeme = String.ofList [c] := by rw [← htext, String.ofList_toList]
    rw [hlexeme]
    rcases hc with rfl | rfl | rfl | rfl
    · exact ⟨.add, rfl⟩
    · exact ⟨.sub, rfl⟩
    · exact ⟨.mul, rfl⟩
    · exact ⟨.div, rfl⟩

/-- What the scanner takes for a keyword is one. -/
theorem Fits.exists_keyword (h : Fits .keyword token.lexeme.toList behind) :
    ∃ keyword, Keyword.ofWord? token.lexeme = some keyword := by
  generalize htext : token.lexeme.toList = piece at h
  cases h with
  | keyword keyword =>
    rw [String.toList_inj.mp htext]
    exact ⟨keyword, Keyword.ofWord?_word keyword⟩

end Token

namespace Numeral

open Token

/-- Digits and at most one point are read as a decimal if there is a digit. -/
theorem exists_readDecimal {run : List Char} (hrun : ∀ c ∈ run, isNumeric c = true)
    (hpoint : run.count '.' ≤ 1) (hdigit : ∃ c ∈ run, c.isDigit = true) :
    ∃ d, readDecimal run = some d := by
  obtain ⟨whole, tail, rfl, hwhole, hstop⟩ := exists_run Char.isDigit run
  cases tail with
  | nil =>
    obtain ⟨c, hc, _⟩ := hdigit
    rw [List.append_nil] at hc ⊢
    exact ⟨_, readDecimal_digits hwhole (List.ne_nil_of_mem hc)⟩
  | cons c fraction =>
    have hc : c = '.' := by
      have hnumeric := hrun c (by simp)
      rw [isNumeric, hstop c rfl, Bool.false_or] at hnumeric
      exact of_decide_eq_true hnumeric
    subst hc
    have hfraction : ∀ c ∈ fraction, c.isDigit = true := by
      intro c hc
      have hnumeric := hrun c (by simp [hc])
      have hnopoint : fraction.count '.' = 0 := by
        rw [List.count_append, List.count_cons_self] at hpoint
        omega
      rw [isNumeric, Bool.or_eq_true, decide_eq_true_eq] at hnumeric
      refine hnumeric.resolve_right ?_
      rintro rfl
      exact List.count_eq_zero.mp hnopoint hc
    have hne : whole ++ fraction ≠ [] := by
      obtain ⟨c, hc, hdigit⟩ := hdigit
      intro hnil
      obtain ⟨rfl, rfl⟩ := List.append_eq_nil_iff.mp hnil
      rw [List.mem_singleton.mp hc] at hdigit
      cases hdigit
    exact ⟨_, readDecimal_point hwhole hfraction hne⟩

/-- Of the numbers that the scanner finds, only a point without digits cannot be read. -/
theorem eq_point_of_read {text : String} {behind : List Char}
    (hfits : Fits .number text.toList behind) (h : read text = none) : text = "." := by
  cases hfits with
  | number hne hrun hpoint _ =>
    obtain ⟨c, rest, htext⟩ := List.exists_cons_of_ne_nil hne
    obtain ⟨hi, hn, hsign⟩ := @of_isNumeric c rest (hrun c (htext ▸ List.mem_cons_self))
    rw [read, htext, hsign] at h
    dsimp only at h
    rw [readMagnitude_cons hi hn, Option.map_map, Option.map_eq_none_iff, ← htext] at h
    have hpoints : ∀ d ∈ text.toList, d = '.' := by
      intro d hd
      have hnumeric := hrun d hd
      rw [isNumeric, Bool.or_eq_true, decide_eq_true_eq] at hnumeric
      refine hnumeric.resolve_left fun hdigit => ?_
      obtain ⟨_, hread⟩ := exists_readDecimal hrun hpoint ⟨d, hd, hdigit⟩
      rw [hread] at h
      cases h
    -- A run of points that has no two of them is one point.
    have hreplicate := List.eq_replicate_of_mem hpoints
    rw [hreplicate, List.count_replicate_self] at hpoint
    have hlength : text.toList.length = 1 := by
      have hpos := List.length_pos_iff.mpr hne
      omega
    rw [hlength] at hreplicate
    exact String.toList_inj.mp hreplicate

end Numeral

/-- Among the tokens of a source every operator and every keyword is known, and every number but a
point alone can be read. -/
theorem ParseError.Concerns.of_source {source : String} {tokens : List Token} {error : ParseError}
    (htokens : Token.ofSource source = .ok tokens) (h : error.Concerns tokens) :
    (∀ offset, error ≠ .unsupportedForm offset) ∧
      ∀ lexeme offset, error = .invalidNumber lexeme offset → lexeme = "." := by
  have hfits : ∀ {offset : Nat} {token : Token}, tokens[offset]? = some token →
      ∃ behind, Token.Fits token.kind token.lexeme.toList behind := fun hget =>
    (Token.ofSource_eq_ok htokens).exists_fits (List.mem_map_of_mem (List.mem_of_getElem? hget))
  constructor
  · rintro offset rfl
    obtain ⟨token, hget, ⟨hkind, hnone⟩ | ⟨hkind, hnone⟩⟩ := h
    · obtain ⟨_, hfits⟩ := hfits hget
      rw [hkind] at hfits
      obtain ⟨op, hop⟩ := hfits.exists_operator
      rw [hnone] at hop
      cases hop
    · obtain ⟨_, hfits⟩ := hfits hget
      rw [hkind] at hfits
      obtain ⟨keyword, hkeyword⟩ := hfits.exists_keyword
      rw [hnone] at hkeyword
      cases hkeyword
  · rintro lexeme offset rfl
    obtain ⟨token, hget, hkind, rfl, hnone⟩ := h
    obtain ⟨_, hfits⟩ := hfits hget
    rw [hkind] at hfits
    exact Numeral.eq_point_of_read hfits hnone

end LambdaArith
