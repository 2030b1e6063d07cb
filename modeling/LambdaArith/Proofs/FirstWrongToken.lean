import LambdaArith.Proofs.ParseFailures

/-!
# Errors at the first wrong token

The tokens in front of the one that an error is about can be continued to a program, and with that
token they cannot, unless it is only the nesting that is refused. This is carried through a program
part by part: what can still become a word of a language does so when there are words to go on with,
and what no word goes on with stays so behind a part that is the only one possible.
-/

open scoped Computability

namespace LambdaArith

open Grammar

/-- An error at a place is found behind tokens that a word of the language starts with, at a token
that no word goes on with there. -/
structure Refuses (L : Language Token) (cursor : Cursor) (error : ParseError)
    (taken : List Token) (after : Cursor) : Prop where
  takes : cursor.Takes taken after
  offset_eq : error.offset? = some after.index
  continues : ∃ more, taken ++ more ∈ L
  stops : (∀ place, error ≠ .tooDeep place) → ∀ token ∈ after.rest.head?,
    ∀ more, ∀ tokens ∈ L, ¬ tokens <+: taken ++ token :: more

namespace Refuses

variable {L M : Language Token} {cursor middle after : Cursor} {error : ParseError}
  {first taken rest : List Token} {token : Token} {index : Nat}

/-- The error is found at the first token. -/
theorem here (hL : ∃ tokens, tokens ∈ L) (hnil : [] ∉ L)
    (hoffset : error.offset? = some cursor.index)
    (hwrong : (∀ place, error ≠ .tooDeep place) → ∀ token ∈ cursor.rest.head?,
      ∀ more, token :: more ∉ L) : Refuses L cursor error [] cursor where
  takes := ⟨rfl, rfl⟩
  offset_eq := hoffset
  continues := hL
  stops := fun herror token htoken more tokens htokens hstarts => by
    cases tokens with
    | nil => exact hnil htokens
    | cons other tokens =>
      rw [List.nil_append, List.cons_prefix_cons] at hstarts
      exact hwrong herror token htoken tokens (hstarts.1 ▸ htokens)

/-- The error is found in the first of two parts. -/
theorem mul_right (h : Refuses L cursor error taken after) (hM : ∃ tokens, tokens ∈ M) :
    Refuses (L * M) cursor error taken after where
  takes := h.takes
  offset_eq := h.offset_eq
  continues := by
    obtain ⟨more, hmore⟩ := h.continues
    obtain ⟨second, hsecond⟩ := hM
    refine ⟨more ++ second, ?_⟩
    rw [← List.append_assoc]
    exact Language.append_mem_mul hmore hsecond
  stops := fun herror token htoken more tokens htokens hstarts => by
    obtain ⟨a, ha, b, _, rfl⟩ := Language.mem_mul.mp htokens
    exact h.stops herror token htoken more a ha ((List.prefix_append a b).trans hstarts)

/-- The error is found in the second of two parts. -/
theorem mul_left (h : Refuses M middle error taken after) (hL : PrefixFree L) (hfirst : first ∈ L)
    (htakes : cursor.Takes first middle) : Refuses (L * M) cursor error (first ++ taken) after where
  takes := htakes.trans h.takes
  offset_eq := h.offset_eq
  continues := by
    obtain ⟨more, hmore⟩ := h.continues
    refine ⟨more, ?_⟩
    rw [List.append_assoc]
    exact Language.append_mem_mul hfirst hmore
  stops := fun herror token htoken more tokens htokens hstarts => by
    obtain ⟨a, ha, b, hb, rfl⟩ := Language.mem_mul.mp htokens
    obtain ⟨others, hothers⟩ := hstarts
    rw [List.append_assoc, List.append_assoc] at hothers
    -- No other word of the first part can stand there, so the second one starts behind it.
    obtain rfl := hL.eq_of_append_eq ha hfirst hothers
    exact h.stops herror token htoken more b hb ⟨others, List.append_cancel_left hothers⟩

/-- The error is found behind the first token, in what the token leaves of the language. -/
theorem cons (h : Refuses M ⟨rest, index + 1⟩ error taken after)
    (hquotient : L.leftQuotient [token] = M) (hnil : [] ∉ L) :
    Refuses L ⟨token :: rest, index⟩ error (token :: taken) after := by
  subst hquotient
  refine ⟨Cursor.takes_singleton.trans h.takes, h.offset_eq, h.continues, ?_⟩
  intro herror wrong hwrong more tokens htokens hstarts
  cases tokens with
  | nil => exact hnil htokens
  | cons other tokens =>
    rw [List.cons_append, List.cons_prefix_cons] at hstarts
    obtain ⟨rfl, hstarts⟩ := hstarts
    exact h.stops herror wrong hwrong more tokens htokens hstarts

/-- The error is found at the end of the tokens. -/
theorem atEnd (hL : ∃ tokens, tokens ∈ L) (hnil : [] ∉ L) (hoffset : error.offset? = some index) :
    Refuses L ⟨[], index⟩ error [] ⟨[], index⟩ :=
  .here hL hnil hoffset fun _ _ htoken => nomatch htoken

/-- A token of a class is missing. -/
theorem ofKind {kind : TokenKind} (hlacks : cursor.Lacks kind) (error : ParseError)
    (hoffset : error.offset? = some cursor.index) :
    Refuses (Grammar.ofKind kind) cursor error [] cursor := by
  refine .here (ofKind_nonempty kind) ?_ hoffset fun _ token htoken => ?_
  · rintro ⟨_, _, ⟨⟩⟩
  · exact cons_not_mem_ofKind (hlacks token htoken)

end Refuses

/-- Parameters that cannot be read are refused. -/
theorem Cursor.parameters_refuses {seen : List String} {tokens : List Token} {index : Nat}
    {error : ParseError} (hseen : seen.Nodup) (h : parameters seen tokens index = .error error) :
    ∃ taken after, Refuses (parameterList seen) ⟨tokens, index⟩ error taken after := by
  induction tokens generalizing seen index with
  | nil =>
    cases h
    exact ⟨[], _, .atEnd (parameterList_nonempty hseen) nil_not_mem_parameterList rfl⟩
  | cons token rest ih =>
    simp only [parameters] at h
    split at h
    · rename_i hkind
      split at h
      · rename_i hrepeated
        cases h
        refine ⟨[], _, .here (parameterList_nonempty hseen) nil_not_mem_parameterList rfl ?_⟩
        rintro _ _ ⟨⟩ more hmem
        rcases first_of_mem_parameterList hmem with hclose | ⟨_, hnew⟩
        · rw [hkind] at hclose
          cases hclose
        · exact hnew hrepeated
      · rename_i hnew
        have hnodup : (seen ++ [token.lexeme]).Nodup := by
          rw [← List.concat_eq_append]
          exact hseen.concat hnew
        obtain ⟨taken, after, hrefuses⟩ := ih hnodup h
        exact ⟨token :: taken, after,
          hrefuses.cons (leftQuotient_parameter hkind) nil_not_mem_parameterList⟩
    · rename_i hkind
      split at h
      · cases h
      · rename_i hclose
        cases h
        refine ⟨[], _, .here (parameterList_nonempty hseen) nil_not_mem_parameterList rfl ?_⟩
        rintro _ _ ⟨⟩ more hmem
        rcases first_of_mem_parameterList hmem with hlast | ⟨hname, _⟩
        · exact hclose hlast
        · exact hkind hname

/-- An expression that cannot be read is refused. -/
theorem Fails.refuses {levels : Nat} {cursor : Cursor} {error : ParseError}
    (h : Fails levels cursor error) :
    ∃ taken after, Refuses expressions cursor error taken after := by
  induction h with
  | tooDeep cursor =>
    refine ⟨[], cursor, .here expressions_nonempty nil_not_mem_expressions rfl fun herror => ?_⟩
    exact absurd rfl (herror cursor.index)
  | missing levels index =>
    exact ⟨[], _, .atEnd expressions_nonempty nil_not_mem_expressions rfl⟩
  | wrong hstarts hoffset _ =>
    refine ⟨[], _, .here expressions_nonempty nil_not_mem_expressions hoffset ?_⟩
    rintro _ _ ⟨⟩ more hmem
    exact hstarts (startsExpression_of_mem hmem)
  | @openAtEnd levels index token hkind =>
    have hinner : Refuses expressions ⟨[], index + 1⟩ (.unclosedParen index (index + 1)) []
        ⟨[], index + 1⟩ := .atEnd expressions_nonempty nil_not_mem_expressions rfl
    have hrest := hinner.mul_right (ofKind_nonempty .closeParen)
    exact ⟨_, _, hrest.cons (leftQuotient_openParen hkind) nil_not_mem_expressions⟩
  | insideParens hkind _ ih =>
    obtain ⟨taken, after, hrefuses⟩ := ih
    have hrest := hrefuses.mul_right (ofKind_nonempty .closeParen)
    exact ⟨_, after, hrest.cons (leftQuotient_openParen hkind) nil_not_mem_expressions⟩
  | @notClosed _ index _ _ _ _ after hkind htakes hderives hlacks =>
    have hclosing := Refuses.ofKind hlacks (.unclosedParen index after.index) rfl
    have hrest := hclosing.mul_left prefixFree_expressions (mem_expressions hderives) htakes
    exact ⟨_, _, hrest.cons (leftQuotient_openParen hkind) nil_not_mem_expressions⟩
  | leftOperand hkind hop _ ih =>
    obtain ⟨taken, after, hrefuses⟩ := ih
    have hrest := hrefuses.mul_right expressions_nonempty
    exact ⟨_, after, hrest.cons (leftQuotient_operator hkind hop) nil_not_mem_expressions⟩
  | rightOperand hkind hop htakes hderives _ ih =>
    obtain ⟨taken, after, hrefuses⟩ := ih
    have hrest := hrefuses.mul_left prefixFree_expressions (mem_expressions hderives) htakes
    exact ⟨_, after, hrest.cons (leftQuotient_operator hkind hop) nil_not_mem_expressions⟩
  | @noName _ index _ _ hkind hword hlacks =>
    have hname := Refuses.ofKind hlacks (.malformedDefine (index + 1)) rfl
    have hrest := hname.mul_right expressions_nonempty
    exact ⟨_, _, hrest.cons (leftQuotient_define hkind hword) nil_not_mem_expressions⟩
  | definedValue hkind hword hname htakes _ ih =>
    obtain ⟨taken, after, hrefuses⟩ := ih
    have hrest := hrefuses.mul_left (prefixFree_ofKind _) (mem_ofKind hname) htakes
    exact ⟨_, after, hrest.cons (leftQuotient_define hkind hword) nil_not_mem_expressions⟩
  | @noParameters _ index _ _ hkind hword hlacks =>
    have hopening := Refuses.ofKind hlacks (.malformedLambda (index + 1)) rfl
    have hbehind := mul_nonempty (parameterList_nonempty List.nodup_nil) expressions_nonempty
    have hrest := hopening.mul_right hbehind
    exact ⟨_, _, hrest.cons (leftQuotient_lambda hkind hword) nil_not_mem_expressions⟩
  | parameters hkind hword hopen htakes hparameters =>
    obtain ⟨taken, after, hrefuses⟩ := Cursor.parameters_refuses List.nodup_nil hparameters
    have hrest := (hrefuses.mul_right expressions_nonempty).mul_left (prefixFree_ofKind _)
      (mem_ofKind hopen) htakes
    exact ⟨_, after, hrest.cons (leftQuotient_lambda hkind hword) nil_not_mem_expressions⟩
  | body hkind hword hopen htakes hnames hlist _ ih =>
    obtain ⟨taken, after, hrefuses⟩ := ih
    have hbody := hrefuses.mul_left (prefixFree_parameterList []) hnames hlist
    have hrest := hbody.mul_left (prefixFree_ofKind _) (mem_ofKind hopen) htakes
    exact ⟨_, after, hrest.cons (leftQuotient_lambda hkind hword) nil_not_mem_expressions⟩

/-- If the error is that a parenthesis is not closed, then there is one expression between the
parenthesis and the place where it should be, or nothing at the end of all tokens. -/
def LeavesOpen (cursor : Cursor) (error : ParseError) : Prop :=
  ∀ opening offset, error = .unclosedParen opening offset →
    ∃ before token inner after, cursor.Takes (before ++ token :: inner) after ∧
      token.kind = .openParen ∧ opening = cursor.index + before.length ∧ offset = after.index ∧
      (inner ∈ expressions ∨ inner = [] ∧ after.rest = [])

/-- What is left open behind other tokens is left open. -/
theorem LeavesOpen.of_takes {cursor middle : Cursor} {first : List Token} {error : ParseError}
    (h : LeavesOpen middle error) (htakes : cursor.Takes first middle) :
    LeavesOpen cursor error := by
  intro opening offset herror
  obtain ⟨before, token, inner, after, hbehind, hkind, hopening, hoffset, hinner⟩ :=
    h opening offset herror
  refine ⟨first ++ before, token, inner, after, ?_, hkind, ?_, hoffset, hinner⟩
  · rw [List.append_assoc]
    exact htakes.trans hbehind
  · rw [hopening, htakes.index_eq, List.length_append, Nat.add_assoc]

/-- Parameters that cannot be read leave no parenthesis of an expression open. -/
theorem Cursor.parameters_leavesOpen {seen : List String} {tokens : List Token} {index : Nat}
    {error : ParseError} (h : parameters seen tokens index = .error error) (cursor : Cursor) :
    LeavesOpen cursor error := by
  induction tokens generalizing seen index with
  | nil =>
    cases h
    rintro _ _ ⟨⟩
  | cons token rest ih =>
    simp only [parameters] at h
    split at h
    · split at h
      · cases h
        rintro _ _ ⟨⟩
      · exact ih h
    · split at h
      · cases h
      · cases h
        rintro _ _ ⟨⟩

/-- What is left open where an expression cannot be read. -/
theorem Fails.leavesOpen {levels : Nat} {cursor : Cursor} {error : ParseError}
    (h : Fails levels cursor error) : LeavesOpen cursor error := by
  induction h with
  | tooDeep | missing | noName | noParameters => rintro _ _ ⟨⟩
  | wrong _ _ hother => exact fun opening offset herror => absurd herror (hother opening offset)
  | openAtEnd hkind =>
    rintro _ _ ⟨⟩
    exact ⟨[], _, [], _, Cursor.takes_singleton, hkind, rfl, rfl, .inr ⟨rfl, rfl⟩⟩
  | notClosed hkind htakes hderives =>
    rintro _ _ ⟨⟩
    exact ⟨[], _, _, _, Cursor.takes_singleton.trans htakes, hkind, rfl, rfl,
      .inl (mem_expressions hderives)⟩
  | insideParens _ _ ih | leftOperand _ _ _ ih => exact ih.of_takes Cursor.takes_singleton
  | rightOperand _ _ htakes _ _ ih | definedValue _ _ _ htakes _ ih =>
    exact ih.of_takes (Cursor.takes_singleton.trans htakes)
  | parameters _ _ _ _ hparameters => exact Cursor.parameters_leavesOpen hparameters _
  | body _ _ _ htakes _ hlist _ ih =>
    exact ih.of_takes (Cursor.takes_singleton.trans (htakes.trans hlist))

namespace Grammar

variable {first rest : List Token}

/-- A program behind an expression is a program. -/
theorem append_mem_programs (hfirst : first ∈ expressions) (hrest : rest ∈ programs) :
    first ++ rest ∈ programs := by
  refine Language.append_mem_mul hfirst ?_
  rw [← Language.one_add_self_mul_kstar_eq_kstar]
  exact .inr hrest

/-- What is behind the first expression of a program is a program, unless it is nothing. -/
theorem mem_programs_of_append (hfirst : first ∈ expressions) (h : first ++ rest ∈ programs)
    (hrest : rest ≠ []) : rest ∈ programs := by
  obtain ⟨a, ha, b, hb, heq⟩ := Language.mem_mul.mp h
  obtain rfl := prefixFree_expressions.eq_of_append_eq ha hfirst heq
  rw [List.append_cancel_left heq, ← Language.one_add_self_mul_kstar_eq_kstar] at hb
  exact hb.resolve_left hrest

end Grammar

/-- An error at a place is found behind tokens that a program starts with, and no program goes on
with the token there. -/
structure Rejects (cursor : Cursor) (error : ParseError) (taken : List Token) (after : Cursor) :
    Prop where
  takes : cursor.Takes taken after
  offset_eq : error.offset? = some after.index
  continues : ∃ more, taken ++ more ∈ programs
  stops : (∀ place, error ≠ .tooDeep place) → ∀ token ∈ after.rest.head?,
    ∀ more, taken ++ token :: more ∉ programs

/-- What is refused as the first expression is rejected as a program. -/
theorem Refuses.rejects {cursor after : Cursor} {error : ParseError} {taken : List Token}
    (h : Refuses expressions cursor error taken after) : Rejects cursor error taken after where
  takes := h.takes
  offset_eq := h.offset_eq
  continues := by
    obtain ⟨more, hmore⟩ := h.continues
    have hprogram := Language.append_mem_mul hmore (Language.nil_mem_kstar expressions)
    rw [List.append_nil] at hprogram
    exact ⟨more, hprogram⟩
  stops := fun herror token htoken more hprogram => by
    obtain ⟨a, ha, b, _, heq⟩ := Language.mem_mul.mp hprogram
    exact h.stops herror token htoken more a ha ⟨b, heq⟩

/-- What is rejected behind an expression is rejected. -/
theorem Rejects.append {cursor middle after : Cursor} {error : ParseError}
    {first taken : List Token} (h : Rejects middle error taken after)
    (hfirst : first ∈ expressions) (htakes : cursor.Takes first middle) :
    Rejects cursor error (first ++ taken) after where
  takes := htakes.trans h.takes
  offset_eq := h.offset_eq
  continues := by
    obtain ⟨more, hmore⟩ := h.continues
    exact ⟨more, by rw [List.append_assoc]; exact append_mem_programs hfirst hmore⟩
  stops := fun herror token htoken more hprogram => by
    rw [List.append_assoc] at hprogram
    -- The wrong token is still there, so it is not the end of the program.
    have hne : taken ++ token :: more ≠ [] := List.append_ne_nil_of_right_ne_nil _ nofun
    exact h.stops herror token htoken more (mem_programs_of_append hfirst hprogram hne)

/-- Forms that end with an error are rejected. -/
theorem Form.readAll_rejects {cursor : Cursor} {forms : List Form} {error : ParseError}
    (h : readAll cursor = (forms, some error)) :
    (∃ taken after, Rejects cursor error taken after) ∧ LeavesOpen cursor error := by
  induction cursor using readAll.induct generalizing forms with
  | case1 cursor hempty =>
    rw [readAll, if_pos hempty, Prod.mk.injEq] at h
    cases h.2
  | case2 cursor hne found hparse =>
    rw [readAll_of_error (fun hnil => hne (List.isEmpty_iff.mpr hnil)) hparse, Prod.mk.injEq,
      Option.some.injEq] at h
    obtain ⟨_, rfl⟩ := h
    have hfails := Fails.of_parseNested hparse
    obtain ⟨taken, after, hrefuses⟩ := hfails.refuses
    exact ⟨⟨taken, after, hrefuses.rejects⟩, hfails.leavesOpen⟩
  | case3 cursor hne e middle hparse later found hrest ih =>
    rw [readAll_of_ok hparse, Prod.mk.injEq] at h
    obtain ⟨first, htakes, hderives⟩ := Expr.parseNested_sound hparse
    obtain ⟨⟨taken, after, hrejects⟩, hopen⟩ := ih (Prod.ext rfl h.2)
    exact ⟨⟨_, after, hrejects.append (mem_expressions hderives) htakes⟩, hopen.of_takes htakes⟩

/-- What is taken from the beginning is what stands in front of the place behind it. -/
theorem Cursor.Takes.take_index {tokens taken : List Token} {after : Cursor}
    (h : Takes ⟨tokens, 0⟩ taken after) : tokens.take after.index = taken := by
  have htokens : tokens = taken ++ after.rest := h.rest_eq
  rw [htokens, h.index_eq, Nat.zero_add, List.take_left]

/-- Behind what is taken from the beginning are as many tokens as are left. -/
theorem Cursor.Takes.length_eq {tokens taken : List Token} {after : Cursor}
    (h : Takes ⟨tokens, 0⟩ taken after) : tokens.length = after.index + after.rest.length := by
  have htokens : tokens = taken ++ after.rest := h.rest_eq
  rw [htokens, h.index_eq, Nat.zero_add, List.length_append]

/-- Behind tokens that a program starts with, the next token starts no program with them. -/
theorem Rejects.take_succ_not_mem {tokens taken : List Token} {error : ParseError} {after : Cursor}
    (h : Rejects ⟨tokens, 0⟩ error taken after) (hlt : after.index < tokens.length)
    (herror : ∀ place, error ≠ .tooDeep place) (more : List Token) :
    tokens.take (after.index + 1) ++ more ∉ programs := by
  cases hrest : after.rest with
  | nil =>
    rw [h.takes.length_eq, hrest] at hlt
    exact absurd hlt (Nat.lt_irrefl _)
  | cons token rest =>
    have hnext : Cursor.Takes ⟨tokens, 0⟩ (taken ++ [token]) ⟨rest, after.index + 1⟩ :=
      h.takes.trans ⟨hrest, rfl⟩
    have htoken : token ∈ after.rest.head? := by
      rw [hrest]
      rfl
    rw [hnext.take_index, List.append_assoc]
    exact h.stops herror token htoken more

/-- A parenthesis left open among all tokens stands in front of one expression, or at the end. -/
theorem LeavesOpen.unclosed {tokens : List Token} {opening offset : Nat}
    (h : LeavesOpen ⟨tokens, 0⟩ (.unclosedParen opening offset)) :
    (∃ token, tokens[opening]? = some token ∧ token.kind = .openParen) ∧ opening < offset ∧
      ((tokens.take offset).drop (opening + 1) ∈ expressions ∨
        (tokens.take offset).drop (opening + 1) = [] ∧ offset = tokens.length) := by
  obtain ⟨before, token, inner, after, htakes, hkind, hopening, rfl, hinner⟩ := h _ _ rfl
  obtain rfl : opening = before.length := hopening.trans (Nat.zero_add _)
  have htokens : tokens = (before ++ token :: inner) ++ after.rest := htakes.rest_eq
  have hlength : after.index = before.length + (inner.length + 1) := by
    rw [htakes.index_eq, List.length_append, List.length_cons]
    exact Nat.zero_add _
  have hbetween : (tokens.take after.index).drop (before.length + 1) = inner := by
    rw [htakes.take_index]
    simp
  refine ⟨⟨token, ?_, hkind⟩, by omega, ?_⟩
  · rw [htokens, List.append_assoc, List.getElem?_append_right (Nat.le_refl _)]
    simp
  · rw [hbetween]
    refine hinner.imp_right fun hend => ⟨hend.1, ?_⟩
    rw [htakes.length_eq, hend.2]
    rfl

/-- Where tokens are no program, whatever they are: the tokens in front of the place that the error
gives start a program, and those up to the token there do not, unless the nesting is too deep. A
parenthesis that is not closed stands in front of exactly one expression, or at the very end. -/
theorem parse_error_at_first_wrong_token {tokens : List Token} {error : ParseError} {offset : Nat}
    (h : parseProgram tokens = .error error) (hoffset : error.offset? = some offset) :
    offset ≤ tokens.length ∧ (∃ more, tokens.take offset ++ more ∈ programs) ∧
      (offset < tokens.length → (∀ place, error ≠ .tooDeep place) →
        ∀ more, tokens.take (offset + 1) ++ more ∉ programs) ∧
      ∀ opening, error = .unclosedParen opening offset →
        (∃ token, tokens[opening]? = some token ∧ token.kind = .openParen) ∧ opening < offset ∧
        ((tokens.take offset).drop (opening + 1) ∈ expressions ∨
          (tokens.take offset).drop (opening + 1) = [] ∧ offset = tokens.length) := by
  have hne : tokens ≠ [] := by
    rintro rfl
    cases h
    cases hoffset
  rcases hread : Form.readAll ⟨tokens, 0⟩ with ⟨forms, _ | found⟩
  · rw [parseProgram_of_readAll hne hread] at h
    cases h
  rw [parseProgram_of_readAll_error hne hread, Except.error.injEq] at h
  subst h
  obtain ⟨⟨taken, after, hrejects⟩, hopen⟩ := Form.readAll_rejects hread
  obtain rfl : offset = after.index := Option.some.inj (hoffset.symm.trans hrejects.offset_eq)
  refine ⟨?_, ?_, hrejects.take_succ_not_mem, ?_⟩
  · rw [hrejects.takes.length_eq]
    exact Nat.le_add_right _ _
  · rw [hrejects.takes.take_index]
    exact hrejects.continues
  · rintro opening rfl
    exact hopen.unclosed

/-- A parenthesis that should be closed before the third operand. -/
theorem parse_error_at_first_wrong_token_sum :
    let tokens := (Token.scanAll "(lambda (x) (+ x 1 2))".toList 0).1
    parseProgram tokens = .error (.unclosedParen 5 9) ∧
      9 ≤ tokens.length ∧ (∃ more, tokens.take 9 ++ more ∈ programs) ∧
      (∀ more, tokens.take 10 ++ more ∉ programs) ∧ (tokens.take 9).drop 6 ∈ expressions := by
  intro tokens
  have hread : (Form.readAll ⟨tokens, 0⟩).2 = some (.unclosedParen 5 9) := by decide +kernel
  have herror : parseProgram tokens = .error (.unclosedParen 5 9) :=
    parseProgram_of_readAll_error (by decide +kernel) (Prod.ext rfl hread)
  obtain ⟨hle, hcontinues, hstops, hopen⟩ := parse_error_at_first_wrong_token herror rfl
  have hinner := (hopen 5 rfl).2.2.resolve_right fun hend => by
    exact absurd hend.2 (by decide +kernel)
  exact ⟨herror, hle, hcontinues, hstops (by decide +kernel) nofun, hinner⟩

end LambdaArith
