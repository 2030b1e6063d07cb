import LambdaArith.Proofs.ProgramGrammar
import Mathlib.Computability.MyhillNerode

/-!
# The languages of tokens

The grammar as languages, without a bound on the nesting: of expressions, of what they are made of
and of programs. The first token of an expression says which languages the rest of it is made of.
No expression starts another, so one that is read is the only one that can stand there.
-/

open scoped Computability

namespace LambdaArith

/-- No word of the language starts another one. -/
def PrefixFree (L : Language Token) : Prop :=
  ∀ first ∈ L, ∀ second ∈ L, first <+: second → first = second

/-- No two words start the same list of tokens. -/
theorem PrefixFree.eq_of_append_eq {L : Language Token} (hL : PrefixFree L)
    {first second rest others : List Token} (hfirst : first ∈ L) (hsecond : second ∈ L)
    (h : first ++ rest = second ++ others) : first = second := by
  have hstarts : first <+: second ++ others := ⟨rest, h⟩
  rcases List.prefix_or_prefix_of_prefix hstarts (List.prefix_append second others) with hle | hle
  · exact hL first hfirst second hsecond hle
  · exact (hL second hsecond first hfirst hle).symm

/-- Whether an expression can start with the token. -/
def Token.StartsExpression (token : Token) : Prop :=
  match token.kind with
  | .openParen => True
  | .closeParen => False
  | .identifier => True
  | .number => Numeral.read token.lexeme ≠ none
  | .operator => Operator.ofSymbol? token.lexeme ≠ none
  | .keyword => Keyword.ofWord? token.lexeme ≠ none

namespace Grammar

/-- The lists of tokens that are an expression. -/
def expressions : Language Token :=
  {tokens | ∃ levels e, Derives levels tokens e}

/-- The lists of tokens that are a program: one expression or several, one behind the other. -/
def programs : Language Token :=
  expressions * expressions∗

/-- The lists of one token of a class. -/
def ofKind (kind : TokenKind) : Language Token :=
  {tokens | ∃ token, token.kind = kind ∧ tokens = [token]}

/-- Identifiers that are repeated neither among themselves nor from those seen before, and a closing
parenthesis. -/
def parameterList (seen : List String) : Language Token :=
  {tokens | ∃ names closing, (∀ name ∈ names, name.kind = .identifier) ∧
    (seen ++ names.map Token.lexeme).Nodup ∧ closing.kind = .closeParen ∧
    tokens = names ++ [closing]}

variable {token : Token} {tokens : List Token} {kind : TokenKind} {seen : List String}
  {levels : Nat} {e : Expr}

/-- What is derived is an expression. -/
theorem mem_expressions (h : Derives levels tokens e) : tokens ∈ expressions :=
  ⟨levels, e, h⟩

/-- A token makes a list of its class. -/
theorem mem_ofKind (h : token.kind = kind) : [token] ∈ ofKind kind :=
  ⟨token, h, rfl⟩

/-- There is an expression. -/
theorem expressions_nonempty : ∃ tokens, tokens ∈ expressions :=
  ⟨[⟨.identifier, "x", ⟨0, 1⟩⟩], 1, .identifier "x", .identifier rfl⟩

/-- There is a token of each class. -/
theorem ofKind_nonempty (kind : TokenKind) : ∃ tokens, tokens ∈ ofKind kind :=
  ⟨_, ⟨kind, "", ⟨0, 0⟩⟩, rfl, rfl⟩

/-- A list of parameters can end at once. -/
theorem parameterList_nonempty (hseen : seen.Nodup) : ∃ tokens, tokens ∈ parameterList seen :=
  ⟨_, [], ⟨.closeParen, ")", ⟨0, 1⟩⟩, nofun, by simpa using hseen, rfl, rfl⟩

/-- There are words of both parts, so there are of what is made of them. -/
theorem mul_nonempty {A B : Language Token} (hA : ∃ first, first ∈ A) (hB : ∃ second, second ∈ B) :
    ∃ tokens, tokens ∈ A * B := by
  obtain ⟨first, hfirst⟩ := hA
  obtain ⟨second, hsecond⟩ := hB
  exact ⟨first ++ second, Language.append_mem_mul hfirst hsecond⟩

/-- An expression has a token. -/
theorem nil_not_mem_expressions : [] ∉ expressions := by
  rintro ⟨levels, e, h⟩
  exact h.ne_nil rfl

/-- A list of parameters has a token. -/
theorem nil_not_mem_parameterList : [] ∉ parameterList seen := by
  rintro ⟨names, closing, _, _, _, h⟩
  exact List.append_ne_nil_of_right_ne_nil names (List.cons_ne_nil closing []) h.symm

/-- No expression starts another. -/
theorem prefixFree_expressions : PrefixFree expressions := by
  rintro first ⟨_, _, hfirst⟩ second ⟨_, _, hsecond⟩ ⟨rest, h⟩
  exact (hfirst.unique hsecond (h.trans (List.append_nil second).symm)).1

/-- No token starts another. -/
theorem prefixFree_ofKind (kind : TokenKind) : PrefixFree (ofKind kind) := by
  rintro _ ⟨first, _, rfl⟩ _ ⟨second, _, rfl⟩ ⟨rest, h⟩
  rw [List.singleton_append, List.cons.injEq] at h
  rw [h.1]

/-- No list of parameters starts another, as the parenthesis that ends it is no parameter. -/
theorem prefixFree_parameterList (seen : List String) : PrefixFree (parameterList seen) := by
  rintro _ ⟨names, closing, hnames, hdistinct, hclose, rfl⟩
    _ ⟨others, last, hothers, hdistinct', hlast, rfl⟩ ⟨rest, h⟩
  have hread : Cursor.parameters seen (names ++ closing :: rest) 0 = _ :=
    Cursor.parameters_append hnames hclose hdistinct
  have hread' : Cursor.parameters seen (others ++ [last]) 0 = _ :=
    Cursor.parameters_append hothers hlast hdistinct'
  rw [← List.singleton_append, ← List.append_assoc, h, hread'] at hread
  simp only [Except.ok.injEq, Prod.mk.injEq, Cursor.mk.injEq] at hread
  rwa [← hread.2.1, List.append_nil] at h

/-- Behind an opening parenthesis come an expression and a closing one. -/
theorem leftQuotient_openParen (hkind : token.kind = .openParen) :
    expressions.leftQuotient [token] = expressions * ofKind .closeParen := by
  ext tokens
  rw [Language.mem_leftQuotient, Language.mem_mul]
  constructor
  · rintro ⟨_, _, h⟩
    cases h with
    | paren _ hinner hclose =>
      exact ⟨_, mem_expressions hinner, _, mem_ofKind hclose, rfl⟩
    | number h | identifier h | binary h | define h | lambda h =>
      rw [hkind] at h
      cases h
  · rintro ⟨inner, ⟨levels, e, hinner⟩, _, ⟨closing, hclose, rfl⟩, rfl⟩
    exact mem_expressions (.paren hkind hinner hclose)

/-- Behind an operator come two expressions. -/
theorem leftQuotient_operator (hkind : token.kind = .operator) {op : Operator}
    (hop : Operator.ofSymbol? token.lexeme = some op) :
    expressions.leftQuotient [token] = expressions * expressions := by
  ext tokens
  rw [Language.mem_leftQuotient, Language.mem_mul]
  constructor
  · rintro ⟨_, _, h⟩
    cases h with
    | binary _ _ hleft hright =>
      exact ⟨_, mem_expressions hleft, _, mem_expressions hright, rfl⟩
    | number h | identifier h | paren h | define h | lambda h =>
      rw [hkind] at h
      cases h
  · rintro ⟨left, ⟨levels, lhs, hleft⟩, right, ⟨levels', rhs, hright⟩, rfl⟩
    have hleft' := hleft.mono (Nat.le_max_left levels levels')
    have hright' := hright.mono (Nat.le_max_right levels levels')
    have hderives := Derives.binary hkind hop hleft' hright'
    exact mem_expressions hderives

/-- Behind the word `define` come a name and an expression. -/
theorem leftQuotient_define (hkind : token.kind = .keyword)
    (hword : Keyword.ofWord? token.lexeme = some .define) :
    expressions.leftQuotient [token] = ofKind .identifier * expressions := by
  ext tokens
  rw [Language.mem_leftQuotient, Language.mem_mul]
  constructor
  · rintro ⟨_, _, h⟩
    cases h with
    | define _ _ hname hvalue => exact ⟨_, mem_ofKind hname, _, mem_expressions hvalue, rfl⟩
    | lambda _ h =>
      rw [hword] at h
      cases h
    | number h | identifier h | paren h | binary h =>
      rw [hkind] at h
      cases h
  · rintro ⟨_, ⟨name, hname, rfl⟩, value, ⟨levels, e, hvalue⟩, rfl⟩
    exact mem_expressions (.define hkind hword hname hvalue)

/-- Behind the word `lambda` come parameters in parentheses and an expression. -/
theorem leftQuotient_lambda (hkind : token.kind = .keyword)
    (hword : Keyword.ofWord? token.lexeme = some .lambda) :
    expressions.leftQuotient [token] =
      ofKind .openParen * (parameterList [] * expressions) := by
  ext tokens
  rw [Language.mem_leftQuotient, Language.mem_mul]
  constructor
  · rintro ⟨_, _, h⟩
    cases h with
    | @lambda _ _ _ closing names body _ _ _ hopen hnames hdistinct hclose hbody =>
      have hlist : names ++ [closing] ∈ parameterList [] :=
        ⟨names, closing, hnames, hdistinct, hclose, rfl⟩
      refine ⟨_, mem_ofKind hopen, _, Language.append_mem_mul hlist (mem_expressions hbody), ?_⟩
      simp only [List.singleton_append, List.append_assoc]
    | define _ h =>
      rw [hword] at h
      cases h
    | number h | identifier h | paren h | binary h =>
      rw [hkind] at h
      cases h
  · rintro ⟨_, ⟨opening, hopen, rfl⟩, _, ⟨_, ⟨names, closing, hnames, hdistinct, hclose, rfl⟩,
      body, ⟨levels, e, hbody⟩, rfl⟩, rfl⟩
    have hderives := Derives.lambda hkind hword hopen hnames hdistinct hclose hbody
    simp only [List.singleton_append, List.append_assoc]
    exact mem_expressions hderives

/-- Behind a parameter comes the rest of the list, in which it is not repeated. -/
theorem leftQuotient_parameter (hkind : token.kind = .identifier) :
    (parameterList seen).leftQuotient [token] = parameterList (seen ++ [token.lexeme]) := by
  ext tokens
  rw [Language.mem_leftQuotient]
  constructor
  · rintro ⟨names, closing, hnames, hdistinct, hclose, h⟩
    cases names with
    | nil =>
      cases h
      rw [hkind] at hclose
      cases hclose
    | cons name names =>
      cases h
      rw [List.map_cons, List.append_cons] at hdistinct
      exact ⟨names, closing, (List.forall_mem_cons.mp hnames).2, hdistinct, hclose, rfl⟩
  · rintro ⟨names, closing, hnames, hdistinct, hclose, rfl⟩
    rw [← List.append_cons, ← List.map_cons] at hdistinct
    have hall : ∀ name ∈ token :: names, name.kind = .identifier :=
      List.forall_mem_cons.mpr ⟨hkind, hnames⟩
    exact ⟨token :: names, closing, hall, hdistinct, hclose, rfl⟩

/-- A token of another class starts no word of one token of a class. -/
theorem cons_not_mem_ofKind (h : token.kind ≠ kind) (rest : List Token) :
    token :: rest ∉ ofKind kind := by
  rintro ⟨_, hkind, heq⟩
  cases heq
  exact h hkind

/-- The first token of an expression is one that can start it. -/
theorem startsExpression_of_mem {rest : List Token} (h : token :: rest ∈ expressions) :
    token.StartsExpression := by
  obtain ⟨_, _, h⟩ := h
  unfold Token.StartsExpression
  cases h with
  | number hkind hvalue => simp only [hkind, hvalue]; exact nofun
  | identifier hkind => simp only [hkind]
  | paren hkind => simp only [hkind]
  | binary hkind hop => simp only [hkind, hop]; exact nofun
  | define hkind hword | lambda hkind hword => simp only [hkind, hword]; exact nofun

/-- The first token of a list of parameters ends it, or is one that has not been seen. -/
theorem first_of_mem_parameterList {rest : List Token} (h : token :: rest ∈ parameterList seen) :
    token.kind = .closeParen ∨ token.kind = .identifier ∧ token.lexeme ∉ seen := by
  obtain ⟨_ | ⟨name, names⟩, closing, hnames, hdistinct, hclose, h⟩ := h
  · cases h
    exact .inl hclose
  · cases h
    refine .inr ⟨(List.forall_mem_cons.mp hnames).1, fun hmem => ?_⟩
    exact (List.nodup_append.mp hdistinct).2.2 _ hmem _ List.mem_cons_self rfl

end Grammar

end LambdaArith
