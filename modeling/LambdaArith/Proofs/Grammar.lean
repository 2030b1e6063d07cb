import LambdaArith.Expr.Parser

/-!
# The grammar of expressions

What the tokens of an expression are, without a word about how they are read. The parser reads
exactly what the grammar derives, and where it is given fewer levels than a derivation needs, it
either reads the same or says that the nesting is too deep.
-/

namespace LambdaArith

/-- The tokens derive the expression, with at most as many levels of expressions in each other.
What a token is follows from its class alone where its spelling is not asked for. -/
inductive Derives : Nat → List Token → Expr → Prop where
  | number {levels : Nat} {token : Token} {value : Float} (hkind : token.kind = .number)
      (hvalue : Numeral.read token.lexeme = some value) :
      Derives (levels + 1) [token] (.number value)
  | identifier {levels : Nat} {token : Token} (hkind : token.kind = .identifier) :
      Derives (levels + 1) [token] (.identifier token.lexeme)
  | paren {levels : Nat} {opening closing : Token} {tokens : List Token} {e : Expr}
      (hopen : opening.kind = .openParen) (hinner : Derives levels tokens e)
      (hclose : closing.kind = .closeParen) :
      Derives (levels + 1) (opening :: (tokens ++ [closing])) e
  | binary {levels : Nat} {token : Token} {op : Operator} {left right : List Token}
      {lhs rhs : Expr} (hkind : token.kind = .operator)
      (hop : Operator.ofSymbol? token.lexeme = some op)
      (hleft : Derives levels left lhs) (hright : Derives levels right rhs) :
      Derives (levels + 1) (token :: (left ++ right)) (.binary op lhs rhs)
  | define {levels : Nat} {token name : Token} {tokens : List Token} {value : Expr}
      (hkind : token.kind = .keyword) (hword : Keyword.ofWord? token.lexeme = some .define)
      (hname : name.kind = .identifier) (hvalue : Derives levels tokens value) :
      Derives (levels + 1) (token :: name :: tokens) (.define name.lexeme value)
  | lambda {levels : Nat} {token opening closing : Token} {names tokens : List Token}
      {body : Expr} (hkind : token.kind = .keyword)
      (hword : Keyword.ofWord? token.lexeme = some .lambda)
      (hopen : opening.kind = .openParen) (hnames : ∀ name ∈ names, name.kind = .identifier)
      (hdistinct : (names.map Token.lexeme).Nodup) (hclose : closing.kind = .closeParen)
      (hbody : Derives levels tokens body) :
      Derives (levels + 1) (token :: opening :: (names ++ closing :: tokens))
        (.lambda (names.map Token.lexeme) body)

/-- There are no expressions without tokens. -/
theorem Derives.ne_nil {levels : Nat} {tokens : List Token} {e : Expr}
    (h : Derives levels tokens e) : tokens ≠ [] := by
  cases h <;> exact List.cons_ne_nil _ _

namespace Cursor

/-- From one place to another stand these tokens. -/
structure Takes (cursor : Cursor) (tokens : List Token) (after : Cursor) : Prop where
  rest_eq : cursor.rest = tokens ++ after.rest
  index_eq : after.index = cursor.index + tokens.length

variable {cursor middle after : Cursor} {token : Token} {tokens first second rest : List Token}
  {index opening : Nat}

/-- One token stands between a place and the next. -/
theorem takes_singleton : Takes ⟨token :: rest, index⟩ [token] ⟨rest, index + 1⟩ :=
  ⟨rfl, rfl⟩

/-- Tokens that follow each other stand between the ends. -/
theorem Takes.trans (hfirst : cursor.Takes first middle) (hsecond : middle.Takes second after) :
    cursor.Takes (first ++ second) after := by
  refine ⟨?_, ?_⟩
  · rw [hfirst.rest_eq, hsecond.rest_eq, List.append_assoc]
  · rw [hsecond.index_eq, hfirst.index_eq, List.length_append, Nat.add_assoc]

/-- What closes a parenthesis is a closing parenthesis. -/
theorem closeParen_eq_ok (h : cursor.closeParen opening = .ok after) :
    ∃ token, token.kind = .closeParen ∧ cursor.Takes [token] after := by
  obtain ⟨rest, index⟩ := cursor
  cases rest with
  | nil => cases h
  | cons token rest =>
    simp only [closeParen] at h
    split at h
    · rename_i hkind
      cases h
      exact ⟨token, hkind, takes_singleton⟩
    · cases h

/-- What is defined is an identifier. -/
theorem definedName_eq_ok {name : String} (h : cursor.definedName = .ok (name, after)) :
    ∃ token, token.kind = .identifier ∧ token.lexeme = name ∧ cursor.Takes [token] after := by
  obtain ⟨rest, index⟩ := cursor
  cases rest with
  | nil => cases h
  | cons token rest =>
    simp only [definedName] at h
    split at h
    · rename_i hkind
      cases h
      exact ⟨token, hkind, rfl, takes_singleton⟩
    · cases h

/-- What opens a list of parameters is an opening parenthesis. -/
theorem openParameters_eq_ok (h : cursor.openParameters = .ok after) :
    ∃ token, token.kind = .openParen ∧ cursor.Takes [token] after := by
  obtain ⟨rest, index⟩ := cursor
  cases rest with
  | nil => cases h
  | cons token rest =>
    simp only [openParameters] at h
    split at h
    · rename_i hkind
      cases h
      exact ⟨token, hkind, takes_singleton⟩
    · cases h

/-- Parameters are identifiers of which none is repeated, and a closing parenthesis. -/
theorem parameters_eq_ok {seen names : List String} (hseen : seen.Nodup)
    (h : parameters seen tokens index = .ok (names, after)) :
    ∃ taken closing, (∀ name ∈ taken, name.kind = .identifier) ∧ closing.kind = .closeParen ∧
      names = seen ++ taken.map Token.lexeme ∧ names.Nodup ∧
      Takes ⟨tokens, index⟩ (taken ++ [closing]) after := by
  induction tokens generalizing seen index with
  | nil => cases h
  | cons token rest ih =>
    simp only [parameters] at h
    split at h
    · rename_i hkind
      split at h
      · cases h
      · rename_i hnew
        have hnodup : (seen ++ [token.lexeme]).Nodup := by
          refine List.nodup_append.mpr ⟨hseen, by simp, fun name hname last hlast heq => ?_⟩
          rw [heq, List.mem_singleton.mp hlast] at hname
          exact hnew hname
        obtain ⟨taken, closing, htaken, hclose, hnames, hdistinct, hend⟩ := ih hnodup h
        refine ⟨token :: taken, closing, ?_, hclose, ?_, hdistinct, takes_singleton.trans hend⟩
        · intro name hname
          rcases List.mem_cons.mp hname with rfl | hname
          · exact hkind
          · exact htaken name hname
        · rw [hnames, List.append_assoc]
          rfl
    · split at h
      · rename_i hkind
        cases h
        exact ⟨[], token, fun name hname => (List.not_mem_nil hname).elim, hkind,
          (List.append_nil _).symm, hseen, takes_singleton⟩
      · cases h

/-- Distinct identifiers in front of a closing parenthesis are parameters. -/
theorem parameters_append {seen : List String} {closing : Token}
    (hnames : ∀ name ∈ tokens, name.kind = .identifier) (hclose : closing.kind = .closeParen)
    (hdistinct : (seen ++ tokens.map Token.lexeme).Nodup) :
    parameters seen (tokens ++ closing :: rest) index =
      .ok (seen ++ tokens.map Token.lexeme, ⟨rest, index + (tokens.length + 1)⟩) := by
  induction tokens generalizing seen index with
  | nil =>
    rw [List.nil_append, parameters, hclose]
    simp only [reduceCtorEq, if_false, if_true, List.map_nil, List.append_nil, List.length_nil,
      Nat.zero_add]
  | cons token tokens ih =>
    have hkind : token.kind = .identifier := hnames token List.mem_cons_self
    have hnew : token.lexeme ∉ seen := by
      intro hmem
      exact (List.nodup_append.mp hdistinct).2.2 _ hmem _ List.mem_cons_self rfl
    rw [List.map_cons, List.append_cons] at hdistinct
    rw [List.cons_append, parameters, hkind, if_pos rfl, if_neg hnew,
      ih (fun name hname => hnames name (List.mem_cons_of_mem _ hname)) hdistinct,
      List.length_cons]
    simp only [List.map_cons, List.append_assoc, List.singleton_append, Nat.add_assoc,
      Nat.add_comm 1]

end Cursor

namespace Expr

variable {levels : Nat} {cursor after : Cursor} {e : Expr}

/-- What comes after a step that succeeds is done with its result. -/
theorem bind_eq_ok {α β ε : Type} {first : Except ε α} {next : α → Except ε β} {result : β}
    (h : first.bind next = .ok result) : ∃ value, first = .ok value ∧ next value = .ok result := by
  cases first with
  | error _ => cases h
  | ok value => exact ⟨value, rfl, h⟩

/-- The parser reads what the grammar derives. -/
theorem parseNested_sound (h : parseNested levels cursor = .ok (e, after)) :
    ∃ tokens, cursor.Takes tokens after ∧ Derives levels tokens e := by
  induction levels generalizing cursor after e with
  | zero => cases h
  | succ levels ih =>
    obtain ⟨tokens, index⟩ := cursor
    cases tokens with
    | nil => cases h
    | cons token rest =>
      have hfirst : Cursor.Takes ⟨token :: rest, index⟩ [token] ⟨rest, index + 1⟩ :=
        Cursor.takes_singleton
      simp only [parseNested] at h
      split at h
      · rename_i hkind
        split at h
        · cases h
        · obtain ⟨⟨inner, middle⟩, hinner, h⟩ := bind_eq_ok h
          obtain ⟨last, hlast, h⟩ := bind_eq_ok h
          cases h
          obtain ⟨taken, htaken, hderives⟩ := ih hinner
          obtain ⟨closing, hclose, hend⟩ := Cursor.closeParen_eq_ok hlast
          exact ⟨token :: (taken ++ [closing]), hfirst.trans (htaken.trans hend),
            .paren hkind hderives hclose⟩
      · cases h
      · rename_i hkind
        split at h
        · cases h
        · rename_i op hop
          obtain ⟨⟨lhs, middle⟩, hleft, h⟩ := bind_eq_ok h
          obtain ⟨⟨rhs, last⟩, hright, h⟩ := bind_eq_ok h
          cases h
          obtain ⟨left, hl, hlhs⟩ := ih hleft
          obtain ⟨right, hr, hrhs⟩ := ih hright
          exact ⟨token :: (left ++ right), hfirst.trans (hl.trans hr),
            .binary hkind hop hlhs hrhs⟩
      · rename_i hkind
        split at h
        · cases h
        · rename_i value hvalue
          cases h
          exact ⟨[token], hfirst, .number hkind hvalue⟩
      · rename_i hkind
        cases h
        exact ⟨[token], hfirst, .identifier hkind⟩
      · rename_i hkind
        split at h
        · cases h
        · rename_i hword
          obtain ⟨⟨name, middle⟩, hname, h⟩ := bind_eq_ok h
          obtain ⟨⟨value, last⟩, hvalue, h⟩ := bind_eq_ok h
          cases h
          obtain ⟨defined, hdefined, rfl, hsecond⟩ := Cursor.definedName_eq_ok hname
          obtain ⟨tail, htail, hderives⟩ := ih hvalue
          exact ⟨token :: defined :: tail, hfirst.trans (hsecond.trans htail),
            .define hkind hword hdefined hderives⟩
        · rename_i hword
          obtain ⟨opened, hopened, h⟩ := bind_eq_ok h
          obtain ⟨⟨names, middle⟩, hnames, h⟩ := bind_eq_ok h
          obtain ⟨⟨body, last⟩, hbody, h⟩ := bind_eq_ok h
          cases h
          obtain ⟨opening, hopen, hsecond⟩ := Cursor.openParameters_eq_ok hopened
          obtain ⟨taken, closing, htaken, hclose, rfl, hdistinct, hthird⟩ :=
            Cursor.parameters_eq_ok List.nodup_nil hnames
          obtain ⟨tail, htail, hderives⟩ := ih hbody
          have hends := hthird.trans htail
          rw [List.append_assoc] at hends
          exact ⟨token :: opening :: (taken ++ closing :: tail), hfirst.trans (hsecond.trans hends),
            .lambda hkind hword hopen htaken hdistinct hclose hderives⟩

end Expr

end LambdaArith
