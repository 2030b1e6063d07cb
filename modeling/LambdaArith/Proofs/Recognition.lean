import LambdaArith.Proofs.Grammar

/-!
# The parser reads what the grammar derives

Each form that starts with a token of its own is read part by part, so a derivation is followed by
the parser from the first token to the last. Only the nesting can end this early, and only where
there are fewer levels than the derivation has.
-/

namespace LambdaArith

namespace Expr

variable {levels : Nat} {token : Token} {rest : List Token} {index : Nat}

/-- An opening parenthesis is followed by an expression and a closing parenthesis. -/
theorem parseNested_openParen (hkind : token.kind = .openParen) (hrest : rest ≠ []) :
    parseNested (levels + 1) ⟨token :: rest, index⟩ =
      (parseNested levels ⟨rest, index + 1⟩).bind fun inner =>
        (inner.2.closeParen index).bind fun after => .ok (inner.1, after) := by
  have hnonempty : ¬ rest.isEmpty = true := fun h => hrest (List.isEmpty_iff.mp h)
  simp only [parseNested, hkind, if_neg hnonempty]
  rfl

/-- An operator is followed by two expressions. -/
theorem parseNested_operator {op : Operator} (hkind : token.kind = .operator)
    (hop : Operator.ofSymbol? token.lexeme = some op) :
    parseNested (levels + 1) ⟨token :: rest, index⟩ =
      (parseNested levels ⟨rest, index + 1⟩).bind fun left =>
        (parseNested levels left.2).bind fun right =>
          .ok (.binary op left.1 right.1, right.2) := by
  simp only [parseNested, hkind, hop]
  rfl

/-- The word `define` is followed by a name and an expression. -/
theorem parseNested_define {name : Token} (hkind : token.kind = .keyword)
    (hword : Keyword.ofWord? token.lexeme = some .define) (hname : name.kind = .identifier) :
    parseNested (levels + 1) ⟨token :: name :: rest, index⟩ =
      (parseNested levels ⟨rest, index + 1 + 1⟩).bind fun value =>
        .ok (.define name.lexeme value.1, value.2) := by
  simp only [parseNested, hkind, hword, Cursor.definedName, hname]
  rfl

/-- The word `lambda` is followed by distinct names in parentheses and an expression. -/
theorem parseNested_lambda {opening closing : Token} {names : List Token}
    (hkind : token.kind = .keyword) (hword : Keyword.ofWord? token.lexeme = some .lambda)
    (hopen : opening.kind = .openParen) (hnames : ∀ name ∈ names, name.kind = .identifier)
    (hdistinct : (names.map Token.lexeme).Nodup) (hclose : closing.kind = .closeParen) :
    parseNested (levels + 1) ⟨token :: opening :: (names ++ closing :: rest), index⟩ =
      (parseNested levels ⟨rest, index + 1 + 1 + (names.length + 1)⟩).bind fun body =>
        .ok (.lambda (names.map Token.lexeme) body.1, body.2) := by
  have hparameters := @Cursor.parameters_append _ rest (index + 1 + 1) [] _ hnames hclose hdistinct
  simp only [parseNested, hkind, hword, Cursor.openParameters, hopen, if_true]
  rw [List.nil_append] at hparameters
  simp only [bind, Except.bind, hparameters]
  rfl

end Expr

/-- The result is this value, or the nesting is too deep because there are too few levels. -/
def OrTooDeep {α : Type} (short : Prop) (result : Except ParseError α) (value : α) : Prop :=
  result = .ok value ∨ short ∧ ∃ offset, result = .error (.tooDeep offset)

namespace OrTooDeep

variable {α β : Type} {short shorter : Prop}

/-- Without levels any nesting is too deep. -/
theorem zero {levels : Nat} {cursor : Cursor} {value : Expr × Cursor} :
    OrTooDeep (0 < levels + 1) (Expr.parseNested 0 cursor) value :=
  .inr ⟨Nat.succ_pos levels, cursor.index, rfl⟩

/-- A nesting that is too deep in one part is too deep in the whole. -/
theorem bind {first : Except ParseError α} {next : α → Except ParseError β} {a : α} {b : β}
    (hshort : short → shorter) (hfirst : OrTooDeep short first a)
    (hnext : OrTooDeep shorter (next a) b) : OrTooDeep shorter (first.bind next) b := by
  rcases hfirst with rfl | ⟨hlevels, offset, rfl⟩
  · exact hnext
  · exact .inr ⟨hshort hlevels, offset, rfl⟩

end OrTooDeep

/-- Where the grammar derives an expression, the parser reads it, unless it is given fewer levels
than the derivation has and finds the nesting too deep. -/
theorem Derives.parseNested {levels : Nat} {tokens : List Token} {e : Expr}
    (h : Derives levels tokens e) (fewer : Nat) (rest : List Token) (index : Nat) :
    OrTooDeep (fewer < levels) (Expr.parseNested fewer ⟨tokens ++ rest, index⟩)
      (e, ⟨rest, index + tokens.length⟩) := by
  induction h generalizing fewer rest index with
  | number hkind hvalue =>
    cases fewer with
    | zero => exact .zero
    | succ fewer =>
      left
      simp only [List.cons_append, List.nil_append, Expr.parseNested, hkind, hvalue]
      rfl
  | identifier hkind =>
    cases fewer with
    | zero => exact .zero
    | succ fewer =>
      left
      simp only [List.cons_append, List.nil_append, Expr.parseNested, hkind]
      rfl
  | @paren levels opening closing tokens e hopen _ hclose ih =>
    cases fewer with
    | zero => exact .zero
    | succ fewer =>
      have hne : tokens ++ closing :: rest ≠ [] := by simp
      rw [List.cons_append, List.append_assoc, List.singleton_append,
        Expr.parseNested_openParen hopen hne]
      refine .bind Nat.succ_lt_succ (ih fewer (closing :: rest) (index + 1)) (.inl ?_)
      have hindex : index + 1 + tokens.length + 1 =
          index + (opening :: (tokens ++ [closing])).length := by
        simp only [List.length_cons, List.length_append, List.length_nil]
        omega
      simp only [Except.bind, Cursor.closeParen, hclose, if_true, hindex]
  | @binary levels token op left right lhs rhs hkind hop _ _ ihl ihr =>
    cases fewer with
    | zero => exact .zero
    | succ fewer =>
      rw [List.cons_append, List.append_assoc, Expr.parseNested_operator hkind hop]
      refine .bind Nat.succ_lt_succ (ihl fewer (right ++ rest) (index + 1)) ?_
      refine .bind Nat.succ_lt_succ (ihr fewer rest (index + 1 + left.length)) (.inl ?_)
      have hindex : index + 1 + left.length + right.length =
          index + (token :: (left ++ right)).length := by
        simp only [List.length_cons, List.length_append]
        omega
      rw [hindex]
  | @define levels token name tokens value hkind hword hname _ ih =>
    cases fewer with
    | zero => exact .zero
    | succ fewer =>
      rw [List.cons_append, List.cons_append, Expr.parseNested_define hkind hword hname]
      refine .bind Nat.succ_lt_succ (ih fewer rest (index + 1 + 1)) (.inl ?_)
      have hindex : index + 1 + 1 + tokens.length = index + (token :: name :: tokens).length := by
        simp only [List.length_cons]
        omega
      rw [hindex]
  | @lambda levels token opening closing names tokens body hkind hword hopen hnames hdistinct
      hclose _ ih =>
    cases fewer with
    | zero => exact .zero
    | succ fewer =>
      rw [List.cons_append, List.cons_append, List.append_assoc, List.cons_append,
        Expr.parseNested_lambda hkind hword hopen hnames hdistinct hclose]
      refine .bind Nat.succ_lt_succ (ih fewer rest (index + 1 + 1 + (names.length + 1))) (.inl ?_)
      have hindex : index + 1 + 1 + (names.length + 1) + tokens.length =
          index + (token :: opening :: (names ++ closing :: tokens)).length := by
        simp only [List.length_cons, List.length_append]
        omega
      rw [hindex]

variable {levels more : Nat} {tokens others rest after : List Token} {e e' : Expr}

/-- Enough levels for a derivation are enough for the parser. -/
theorem Derives.parseNested_of_le (h : Derives levels tokens e) (hle : levels ≤ more)
    (index : Nat) :
    Expr.parseNested more ⟨tokens ++ rest, index⟩ = .ok (e, ⟨rest, index + tokens.length⟩) := by
  rcases h.parseNested more rest index with hok | ⟨hlt, _⟩
  · exact hok
  · omega

/-- The parser reads an expression exactly if the tokens that it takes derive it. -/
theorem Expr.parseNested_eq_ok_iff {cursor last : Cursor} :
    parseNested levels cursor = .ok (e, last) ↔
      ∃ tokens, cursor.Takes tokens last ∧ Derives levels tokens e := by
  constructor
  · exact parseNested_sound
  · rintro ⟨tokens, htakes, hderives⟩
    obtain ⟨hrest, hindex⟩ := htakes
    obtain ⟨rest, index⟩ := cursor
    obtain ⟨after, stop⟩ := last
    dsimp only at hrest hindex
    subst hrest hindex
    exact hderives.parseNested_of_le (Nat.le_refl levels) index

/-- No expression starts a list of tokens in two ways, whatever the numbers of levels are. -/
theorem Derives.unique (h : Derives levels tokens e) (h' : Derives more others e')
    (heq : tokens ++ rest = others ++ after) : tokens = others ∧ e = e' := by
  have hfirst := @Derives.parseNested_of_le _ _ _ rest _ h (Nat.le_max_left levels more) 0
  have hsecond := @Derives.parseNested_of_le _ _ _ after _ h' (Nat.le_max_right levels more) 0
  rw [heq, hsecond] at hfirst
  simp only [Except.ok.injEq, Prod.mk.injEq, Cursor.mk.injEq] at hfirst
  obtain ⟨hexpr, hrest, _⟩ := hfirst
  rw [hrest] at heq
  exact ⟨List.append_cancel_right heq, hexpr.symm⟩

/-- More levels derive no less. -/
theorem Derives.mono (h : Derives levels tokens e) (hle : levels ≤ more) :
    Derives more tokens e := by
  have hread := @Derives.parseNested_of_le _ _ _ [] _ h hle 0
  obtain ⟨others, ⟨hrest, _⟩, hderives⟩ := Expr.parseNested_sound hread
  have heq : tokens = others := List.append_cancel_right hrest
  rwa [heq]

end LambdaArith
