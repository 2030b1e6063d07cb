import LambdaArith.Proofs.Recognition
import LambdaArith.Proofs.Spelling

/-!
# The nesting of printed expressions

A printed form is nested twice as deep as the form itself, since its parentheses are an expression
around it. The words of an expression derive it with one level more than twice its height, and the
parser finds them too deep if it has fewer.
-/

namespace LambdaArith

open Token

/-- An operator is written so that it is found again. -/
theorem Operator.ofSymbol?_symbol (op : Operator) : ofSymbol? op.symbol = some op := by
  cases op <;> rfl

/-- A keyword is written so that it is found again. -/
theorem Keyword.ofWord?_word (keyword : Keyword) : ofWord? keyword.word = some keyword := by
  cases keyword <;> rfl

/-- A double that is finite and has a clear sign is written in one word. -/
theorem numberWords_eq {x : Float} (hfinite : Binary64.magnitude x < Binary64.infinity)
    (hsign : Binary64.isNegative x = false) : numberWords x = [(.number, sourceFloat x)] := by
  have hnumber : ¬ Binary64.infinity < Binary64.magnitude x := Nat.not_lt_of_lt hfinite
  have hless : ¬ Binary64.magnitude x = Binary64.infinity := Nat.ne_of_lt hfinite
  rw [numberWords, if_neg hnumber, hsign, if_neg Bool.false_ne_true, magnitudeWord, if_neg hless,
    sourceFloat_eq hfinite hsign]

namespace Expr

/-- The names are proper, the numbers are finite with a clear sign, and no lambda repeats a
parameter. -/
structure Printable (e : Expr) : Prop where
  names : ∀ name ∈ e.names, IsName name
  numbers : ∀ x ∈ e.numbers,
    Binary64.magnitude x < Binary64.infinity ∧ Binary64.isNegative x = false
  parametersDistinct : e.ParametersDistinct

namespace Printable

variable {op : Operator} {lhs rhs value body : Expr} {name : String} {parameters : List String}

/-- The left operand of a printable expression is printable. -/
theorem of_lhs (h : (binary op lhs rhs).Printable) : lhs.Printable where
  names := fun name hname => h.names name (List.mem_append_left _ hname)
  numbers := fun x hx => h.numbers x (List.mem_append_left _ hx)
  parametersDistinct := h.parametersDistinct.1

/-- The right operand of a printable expression is printable. -/
theorem of_rhs (h : (binary op lhs rhs).Printable) : rhs.Printable where
  names := fun name hname => h.names name (List.mem_append_right _ hname)
  numbers := fun x hx => h.numbers x (List.mem_append_right _ hx)
  parametersDistinct := h.parametersDistinct.2

/-- What a printable definition defines is printable. -/
theorem of_value (h : (define name value).Printable) : value.Printable where
  names := fun name hname => h.names name (List.mem_cons_of_mem _ hname)
  numbers := h.numbers
  parametersDistinct := h.parametersDistinct

/-- The body of a printable lambda is printable. -/
theorem of_body (h : (lambda parameters body).Printable) : body.Printable where
  names := fun name hname => h.names name (List.mem_append_right _ hname)
  numbers := h.numbers
  parametersDistinct := h.parametersDistinct.2

end Printable

variable {op : Operator} {lhs rhs value body : Expr} {name : String} {parameters : List String}
  {tokens : List Token}

/-- The tokens of a printed operation. -/
theorem exists_tokens_binary (h : tokens.map word = (binary op lhs rhs).words) :
    ∃ opening token left right closing,
      tokens = opening :: token :: (left ++ (right ++ [closing])) ∧
      opening.kind = .openParen ∧ token.kind = .operator ∧
      Operator.ofSymbol? token.lexeme = some op ∧ left.map word = lhs.words ∧
      right.map word = rhs.words ∧ closing.kind = .closeParen := by
  obtain ⟨opening, inner, rfl, hopening, h⟩ := List.map_eq_cons_iff.mp h
  obtain ⟨token, inner, rfl, htoken, h⟩ := List.map_eq_cons_iff.mp h
  obtain ⟨left, inner, rfl, hleft, h⟩ := List.map_eq_append_iff.mp h
  obtain ⟨right, inner, rfl, hright, h⟩ := List.map_eq_append_iff.mp h
  obtain ⟨closing, rfl, hclosing⟩ := List.map_eq_singleton_iff.mp h
  have hop : Operator.ofSymbol? token.lexeme = some op := by
    rw [show token.lexeme = op.symbol from congrArg Prod.snd htoken, Operator.ofSymbol?_symbol]
  exact ⟨opening, token, left, right, closing, rfl, congrArg Prod.fst hopening,
    congrArg Prod.fst htoken, hop, hleft, hright, congrArg Prod.fst hclosing⟩

/-- The tokens of a printed definition. -/
theorem exists_tokens_define (h : tokens.map word = (define name value).words) :
    ∃ opening token defined inner closing,
      tokens = opening :: token :: defined :: (inner ++ [closing]) ∧
      opening.kind = .openParen ∧ token.kind = .keyword ∧
      Keyword.ofWord? token.lexeme = some .define ∧ defined.kind = .identifier ∧
      defined.lexeme = name ∧ inner.map word = value.words ∧ closing.kind = .closeParen := by
  obtain ⟨opening, inner, rfl, hopening, h⟩ := List.map_eq_cons_iff.mp h
  obtain ⟨token, inner, rfl, htoken, h⟩ := List.map_eq_cons_iff.mp h
  obtain ⟨defined, inner, rfl, hdefined, h⟩ := List.map_eq_cons_iff.mp h
  obtain ⟨inner, last, rfl, hinner, h⟩ := List.map_eq_append_iff.mp h
  obtain ⟨closing, rfl, hclosing⟩ := List.map_eq_singleton_iff.mp h
  have hword : Keyword.ofWord? token.lexeme = some .define := by
    rw [show token.lexeme = Keyword.define.word from congrArg Prod.snd htoken,
      Keyword.ofWord?_word]
  exact ⟨opening, token, defined, inner, closing, rfl, congrArg Prod.fst hopening,
    congrArg Prod.fst htoken, hword, congrArg Prod.fst hdefined, congrArg Prod.snd hdefined,
    hinner, congrArg Prod.fst hclosing⟩

/-- Tokens that are read as names are identifiers with these names. -/
theorem map_lexeme_of_identifiers {names : List String}
    (h : tokens.map word = names.map fun name => (.identifier, name)) :
    (∀ token ∈ tokens, token.kind = .identifier) ∧ tokens.map Token.lexeme = names := by
  induction tokens generalizing names with
  | nil =>
    rw [List.map_nil, eq_comm, List.map_eq_nil_iff] at h
    rw [h]
    exact ⟨fun token htoken => (List.not_mem_nil htoken).elim, rfl⟩
  | cons token tokens ih =>
    obtain ⟨name, others, rfl, hname, hothers⟩ := List.map_eq_cons_iff.mp h.symm
    obtain ⟨hkinds, hlexemes⟩ := ih hothers.symm
    refine ⟨fun other hother => ?_, ?_⟩
    · rcases List.mem_cons.mp hother with rfl | hother
      · exact (congrArg Prod.fst hname).symm
      · exact hkinds other hother
    · have hlexeme : name = token.lexeme := congrArg Prod.snd hname
      rw [List.map_cons, hlexemes, hlexeme]

/-- The tokens of a printed lambda. -/
theorem exists_tokens_lambda (h : tokens.map word = (lambda parameters body).words) :
    ∃ opening token first names last inner closing,
      tokens = opening :: token :: first :: (names ++ last :: (inner ++ [closing])) ∧
      opening.kind = .openParen ∧ token.kind = .keyword ∧
      Keyword.ofWord? token.lexeme = some .lambda ∧ first.kind = .openParen ∧
      (∀ name ∈ names, name.kind = .identifier) ∧ names.map Token.lexeme = parameters ∧
      last.kind = .closeParen ∧ inner.map word = body.words ∧ closing.kind = .closeParen := by
  obtain ⟨opening, inner, rfl, hopening, h⟩ := List.map_eq_cons_iff.mp h
  obtain ⟨token, inner, rfl, htoken, h⟩ := List.map_eq_cons_iff.mp h
  obtain ⟨first, inner, rfl, hfirst, h⟩ := List.map_eq_cons_iff.mp h
  obtain ⟨names, inner, rfl, hnames, h⟩ := List.map_eq_append_iff.mp h
  obtain ⟨last, inner, rfl, hlast, h⟩ := List.map_eq_cons_iff.mp h
  obtain ⟨inner, end', rfl, hinner, h⟩ := List.map_eq_append_iff.mp h
  obtain ⟨closing, rfl, hclosing⟩ := List.map_eq_singleton_iff.mp h
  obtain ⟨hkinds, hlexemes⟩ := map_lexeme_of_identifiers hnames
  have hword : Keyword.ofWord? token.lexeme = some .lambda := by
    rw [show token.lexeme = Keyword.lambda.word from congrArg Prod.snd htoken,
      Keyword.ofWord?_word]
  exact ⟨opening, token, first, names, last, inner, closing, rfl, congrArg Prod.fst hopening,
    congrArg Prod.fst htoken, hword, congrArg Prod.fst hfirst, hkinds, hlexemes,
    congrArg Prod.fst hlast, hinner, congrArg Prod.fst hclosing⟩

/-- The tokens of a printable expression derive it, with two levels for each form around the
lowest expression. -/
theorem Printable.derives {e : Expr} (h : e.Printable) (htokens : tokens.map word = e.words) :
    Derives (2 * e.height + 1) tokens e := by
  induction e generalizing tokens with
  | number x =>
    obtain ⟨hfinite, hsign⟩ := h.numbers x List.mem_cons_self
    rw [Expr.words, numberWords_eq hfinite hsign] at htokens
    obtain ⟨token, rfl, htoken⟩ := List.map_eq_singleton_iff.mp htokens
    have hlexeme : token.lexeme = sourceFloat x := congrArg Prod.snd htoken
    refine .number (congrArg Prod.fst htoken) ?_
    rw [hlexeme]
    exact read_sourceFloat hfinite hsign
  | identifier name =>
    obtain ⟨token, rfl, htoken⟩ := List.map_eq_singleton_iff.mp htokens
    have hlexeme : token.lexeme = name := congrArg Prod.snd htoken
    rw [← hlexeme]
    exact .identifier (congrArg Prod.fst htoken)
  | binary op lhs rhs ihl ihr =>
    obtain ⟨opening, token, left, right, closing, rfl, hopen, hkind, hop, hleft, hright,
      hclose⟩ := exists_tokens_binary htokens
    have hl := (ihl h.of_lhs hleft).mono (Nat.succ_le_succ (Nat.mul_le_mul_left 2
      (Nat.le_max_left lhs.height rhs.height)))
    have hr := (ihr h.of_rhs hright).mono (Nat.succ_le_succ (Nat.mul_le_mul_left 2
      (Nat.le_max_right lhs.height rhs.height)))
    have hform := Derives.paren hopen (.binary hkind hop hl hr) hclose
    rwa [List.cons_append, List.append_assoc] at hform
  | define name value ih =>
    obtain ⟨opening, token, defined, inner, closing, rfl, hopen, hkind, hword, hname, rfl,
      hinner, hclose⟩ := exists_tokens_define htokens
    exact .paren hopen (.define hkind hword hname (ih h.of_value hinner)) hclose
  | lambda parameters body ih =>
    obtain ⟨opening, token, first, names, last, inner, closing, rfl, hopen, hkind, hword, hfirst,
      hnames, rfl, hlast, hinner, hclose⟩ := exists_tokens_lambda htokens
    have hform := Derives.paren hopen (.lambda hkind hword hfirst hnames h.parametersDistinct.1
      hlast (ih h.of_body hinner)) hclose
    rwa [List.cons_append, List.cons_append, List.append_assoc, List.cons_append] at hform

/-- A form in parentheses is nested too deep if its parts are so with two levels less. -/
theorem tooDeep_form {opening token : Token} {rest : List Token} {height levels index : Nat}
    (hopen : opening.kind = .openParen) (hlevels : levels ≤ 2 * (height + 1))
    (h : ∀ fewer ≤ 2 * height, ∃ offset,
      parseNested (fewer + 1) ⟨token :: rest, index + 1⟩ = .error (.tooDeep offset)) :
    ∃ offset, parseNested levels ⟨opening :: token :: rest, index⟩ =
      .error (.tooDeep offset) := by
  have hne : token :: rest ≠ [] := List.cons_ne_nil token rest
  rcases levels with _ | _ | fewer
  · exact ⟨index, rfl⟩
  · rw [parseNested_openParen hopen hne]
    exact ⟨index + 1, rfl⟩
  · obtain ⟨offset, herror⟩ := h fewer (by omega)
    rw [parseNested_openParen hopen hne, herror]
    exact ⟨offset, rfl⟩

/-- With no more levels than two for each form the tokens of a printable expression are nested too
deep. -/
theorem Printable.tooDeep {e : Expr} (h : e.Printable) (htokens : tokens.map word = e.words)
    {levels : Nat} (hlevels : levels ≤ 2 * e.height) (rest : List Token) (index : Nat) :
    ∃ offset, parseNested levels ⟨tokens ++ rest, index⟩ = .error (.tooDeep offset) := by
  induction e generalizing tokens levels rest index with
  | number x =>
    obtain rfl : levels = 0 := Nat.le_zero.mp hlevels
    exact ⟨index, rfl⟩
  | identifier name =>
    obtain rfl : levels = 0 := Nat.le_zero.mp hlevels
    exact ⟨index, rfl⟩
  | binary op lhs rhs ihl ihr =>
    obtain ⟨opening, token, left, right, closing, rfl, hopen, hkind, hop, hleft, hright,
      hclose⟩ := exists_tokens_binary htokens
    refine tooDeep_form hopen hlevels fun fewer hfewer => ?_
    rw [List.append_eq, parseNested_operator hkind hop, List.append_assoc, List.append_assoc]
    -- If the left operand can be read at all, the right one is the higher of the two.
    by_cases hdeep : fewer ≤ 2 * lhs.height
    · obtain ⟨offset, herror⟩ := ihl h.of_lhs hleft hdeep (right ++ ([closing] ++ rest))
        (index + 1 + 1)
      rw [herror]
      exact ⟨offset, rfl⟩
    · have hright' : fewer ≤ 2 * rhs.height := by omega
      have hread := @Derives.parseNested_of_le _ _ _ (right ++ ([closing] ++ rest)) _
        (h.of_lhs.derives hleft) (Nat.lt_of_not_le hdeep) (index + 1 + 1)
      obtain ⟨offset, herror⟩ := ihr h.of_rhs hright hright' ([closing] ++ rest)
        (index + 1 + 1 + left.length)
      rw [hread]
      simp only [Except.bind, herror]
      exact ⟨offset, rfl⟩
  | define name value ih =>
    obtain ⟨opening, token, defined, inner, closing, rfl, hopen, hkind, hword, hname, rfl,
      hinner, hclose⟩ := exists_tokens_define htokens
    refine tooDeep_form hopen hlevels fun fewer hfewer => ?_
    obtain ⟨offset, herror⟩ := ih h.of_value hinner hfewer ([closing] ++ rest)
      (index + 1 + 1 + 1)
    rw [List.append_eq, List.cons_append, parseNested_define hkind hword hname,
      List.append_assoc, herror]
    exact ⟨offset, rfl⟩
  | lambda parameters body ih =>
    obtain ⟨opening, token, first, names, last, inner, closing, rfl, hopen, hkind, hword, hfirst,
      hnames, rfl, hlast, hinner, hclose⟩ := exists_tokens_lambda htokens
    refine tooDeep_form hopen hlevels fun fewer hfewer => ?_
    obtain ⟨offset, herror⟩ := ih h.of_body hinner hfewer ([closing] ++ rest)
      (index + 1 + 1 + 1 + (names.length + 1))
    rw [List.append_eq, List.cons_append, List.append_assoc, List.cons_append,
      List.append_assoc, parseNested_lambda hkind hword hfirst hnames h.parametersDistinct.1
        hlast, herror]
    exact ⟨offset, rfl⟩

end Expr

end LambdaArith
