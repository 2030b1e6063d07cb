import LambdaArith.Proofs.Location

/-!
# Where a name is not resolved

Lowering looks identifiers up from left to right and ends at the first that stands for nothing.
Which token this identifier has been read from can be said along the derivation of the expression.
The place that is shown is found in another way, by looking for the spelling of the name among all
tokens: it is that of the first token which is spelled like the name, whatever it stands for.
-/

namespace LambdaArith

open Token

/-- The tokens derive the expression, and lowering it ends at one of them: it has been read as an
identifier that stands for nothing, and what is lowered before it has been lowered. -/
inductive StopsAt : Builder → List Token → Expr → Token → Prop where
  | identifier {b : Builder} {token : Token} (hkind : token.kind = .identifier)
      (hunknown : b.module.resolve (b.point.map InsertPoint.function) token.lexeme = none) :
      StopsAt b [token] (.identifier token.lexeme) token
  | paren {b : Builder} {opening closing stop : Token} {tokens : List Token} {e : Expr}
      (hopen : opening.kind = .openParen) (hinner : StopsAt b tokens e stop)
      (hclose : closing.kind = .closeParen) :
      StopsAt b (opening :: (tokens ++ [closing])) e stop
  | left {b : Builder} {token stop : Token} {op : Operator} {left right : List Token}
      {lhs rhs : Expr} {levels : Nat} (hkind : token.kind = .operator)
      (hop : Operator.ofSymbol? token.lexeme = some op) (hleft : StopsAt b left lhs stop)
      (hright : Derives levels right rhs) :
      StopsAt b (token :: (left ++ right)) (.binary op lhs rhs) stop
  | right {b b₁ : Builder} {token stop : Token} {op : Operator} {left right : List Token}
      {lhs rhs : Expr} {levels : Nat} {value : Value} (hkind : token.kind = .operator)
      (hop : Operator.ofSymbol? token.lexeme = some op) (hleft : Derives levels left lhs)
      (hlower : lhs.lower b = (.ok value, b₁)) (hright : StopsAt b₁ right rhs stop) :
      StopsAt b (token :: (left ++ right)) (.binary op lhs rhs) stop
  | define {b : Builder} {token name stop : Token} {tokens : List Token} {value : Expr}
      (hkind : token.kind = .keyword) (hword : Keyword.ofWord? token.lexeme = some .define)
      (hname : name.kind = .identifier) (hvalue : StopsAt b tokens value stop) :
      StopsAt b (token :: name :: tokens) (.define name.lexeme value) stop
  | lambda {b : Builder} {token opening closing stop : Token} {names tokens : List Token}
      {body : Expr} (hkind : token.kind = .keyword)
      (hword : Keyword.ofWord? token.lexeme = some .lambda) (hopen : opening.kind = .openParen)
      (hnames : ∀ name ∈ names, name.kind = .identifier)
      (hdistinct : (names.map Token.lexeme).Nodup) (hclose : closing.kind = .closeParen)
      (hbody : StopsAt (b.enter (names.map Token.lexeme)) tokens body stop) :
      StopsAt b (token :: opening :: (names ++ closing :: tokens))
        (.lambda (names.map Token.lexeme) body) stop

/-- The builder at which an expression of a program is lowered: in a new function, unless it is a
definition or a lambda. -/
def Builder.atTopLevel (b : Builder) (e : Expr) : Builder :=
  if e.isDefinitionOrLambda then b else b.enter []

/-- The tokens derive the expressions of a program, and lowering it ends at one of them. -/
inductive ProgramStopsAt : Builder → List Token → List Expr → Token → Prop where
  | here {b : Builder} {first rest : List Token} {e : Expr} {others : List Expr} {stop : Token}
      (hderives : Derives maxNesting first e) (hfirst : StopsAt (b.atTopLevel e) first e stop)
      (hrest : DerivesEach rest others) : ProgramStopsAt b (first ++ rest) (e :: others) stop
  | later {b b₁ : Builder} {first rest : List Token} {e : Expr} {others : List Expr} {stop : Token}
      {value : Value} (hfirst : Derives maxNesting first e)
      (hlower : e.lowerTopLevel b = (.ok value, b₁)) (hrest : ProgramStopsAt b₁ rest others stop) :
      ProgramStopsAt b (first ++ rest) (e :: others) stop

namespace Build

variable {α : Type} {b after : Builder} {error : LoweringError} {name : String}

/-- What fails at the insertion point, the backend refuses. -/
theorem exists_refusal_of_atPoint {instruction : String} {event : InsertPoint → Event}
    {next : InsertPoint → Build α}
    (hnext : ∀ p c, next p c = (.error error, after) → ∃ refusal, error = .backend refusal)
    (h : (requirePoint instruction >>= fun p => record (event p) >>= fun _ => next p) b =
      (.error error, after)) : ∃ refusal, error = .backend refusal := by
  rcases atPoint_eq_error h with ⟨_, rfl⟩ | ⟨p, _, h⟩
  · exact ⟨_, rfl⟩
  · exact hnext p _ h

/-- Applying an operator fails only because the backend refuses it. -/
theorem exists_refusal_of_operation {op : Operator} {lhs rhs : Value}
    (h : operation op lhs rhs b = (.error error, after)) : ∃ refusal, error = .backend refusal := by
  unfold operation at h
  split at h
  · split at h
    · cases h
    · refine exists_refusal_of_atPoint (fun p c h => ?_) h
      obtain ⟨refusal, _, rfl⟩ := apply_eq_error h
      exact ⟨refusal, rfl⟩
  · cases h
    exact ⟨_, rfl⟩

/-- Returning fails only because the backend refuses it. -/
theorem exists_refusal_of_ret {value : Value} (h : ret value b = (.error error, after)) :
    ∃ refusal, error = .backend refusal := by
  unfold ret at h
  split at h
  · refine exists_refusal_of_atPoint (fun p c h => ?_) h
    rcases bind_eq_error h with h | ⟨_, _, _, h⟩
    · obtain ⟨refusal, _, rfl⟩ := apply_eq_error h
      exact ⟨refusal, rfl⟩
    · cases h
  · cases h
    exact ⟨_, rfl⟩

/-- Defining a name fails only because the backend refuses it. -/
theorem exists_refusal_of_define {value : Value}
    (h : define name value b = (.error error, after)) : ∃ refusal, error = .backend refusal := by
  simp only [define, bind_apply, get] at h
  split at h <;>
  · rcases bind_eq_error h with h | ⟨_, _, _, h⟩
    · obtain ⟨refusal, _, rfl⟩ := apply_eq_error h
      exact ⟨refusal, rfl⟩
    · cases h

/-- Looking a name up fails if it stands for nothing. -/
theorem resolve_eq_unresolved_iff :
    (∃ after, resolve name b = (.error (.unresolvedIdentifier name), after)) ↔
      b.module.resolve (b.point.map InsertPoint.function) name = none := by
  simp only [resolve, bind_apply, get]
  cases b.module.resolve (b.point.map InsertPoint.function) name <;> simp [fail]

/-- A lambda whose parameters are not repeated fails to resolve a name if its body does. -/
theorem lambda_eq_unresolved_iff {parameters : List String} {body : Build Value}
    (hnodup : parameters.Nodup) :
    (∃ after, lambda parameters body b = (.error (.unresolvedIdentifier name), after)) ↔
      ∃ after, body (b.enter parameters) = (.error (.unresolvedIdentifier name), after) := by
  constructor
  · rintro ⟨after, h⟩
    rcases lambda_eq_error h with ⟨_, ⟨⟩, _⟩ | ⟨_, hbody⟩ | ⟨_, _, _, _, _, hret⟩
    · exact hbody
    · obtain ⟨_, ⟨⟩⟩ := exists_refusal_of_ret hret
  · rintro ⟨after, h⟩
    rw [lambda_apply (firstRepeated_nil_eq_none_iff.mpr hnodup)]
    simp only [bind_apply, h]
    exact ⟨_, rfl⟩

end Build

open Build

variable {b after : Builder} {tokens : List Token} {e : Expr} {stop other : Token} {name : String}
  {levels : Nat}

/-- Where lowering stops, the tokens have derived an expression. -/
theorem StopsAt.exists_derives (h : StopsAt b tokens e stop) :
    ∃ levels, Derives levels tokens e := by
  induction h with
  | identifier hkind _ => exact ⟨1, .identifier hkind⟩
  | paren hopen _ hclose ih =>
    obtain ⟨levels, hinner⟩ := ih
    exact ⟨levels + 1, .paren hopen hinner hclose⟩
  | @left _ _ _ _ _ _ _ _ more hkind hop _ hright ih =>
    obtain ⟨levels, hleft⟩ := ih
    exact ⟨max levels more + 1, .binary hkind hop (hleft.mono (Nat.le_max_left _ _))
      (hright.mono (Nat.le_max_right _ _))⟩
  | @right _ _ _ _ _ _ _ _ _ more _ hkind hop hleft _ _ ih =>
    obtain ⟨levels, hright⟩ := ih
    exact ⟨max more levels + 1, .binary hkind hop (hleft.mono (Nat.le_max_left _ _))
      (hright.mono (Nat.le_max_right _ _))⟩
  | define hkind hword hname _ ih =>
    obtain ⟨levels, hvalue⟩ := ih
    exact ⟨levels + 1, .define hkind hword hname hvalue⟩
  | lambda hkind hword hopen hnames hdistinct hclose _ ih =>
    obtain ⟨levels, hbody⟩ := ih
    exact ⟨levels + 1, .lambda hkind hword hopen hnames hdistinct hclose hbody⟩

/-- Where lowering stops stands an identifier. -/
theorem StopsAt.mem (h : StopsAt b tokens e stop) : stop ∈ tokens ∧ stop.kind = .identifier := by
  induction h with
  | identifier hkind _ => exact ⟨List.mem_singleton_self _, hkind⟩
  | paren _ _ _ ih => exact ⟨by simp [ih.1], ih.2⟩
  | left _ _ _ _ ih => exact ⟨by simp [ih.1], ih.2⟩
  | right _ _ _ _ _ ih => exact ⟨by simp [ih.1], ih.2⟩
  | define _ _ _ _ ih => exact ⟨by simp [ih.1], ih.2⟩
  | lambda _ _ _ _ _ _ _ ih => exact ⟨by simp [ih.1], ih.2⟩

/-- Where lowering stops, it fails to resolve the name there. -/
theorem StopsAt.lower_eq (h : StopsAt b tokens e stop) :
    ∃ after, e.lower b = (.error (.unresolvedIdentifier stop.lexeme), after) := by
  induction h with
  | identifier _ hunknown => exact resolve_eq_unresolved_iff.mpr hunknown
  | paren _ _ _ ih => exact ih
  | left _ _ _ _ ih =>
    obtain ⟨after, hleft⟩ := ih
    exact ⟨after, by simp only [Expr.lower, bind_apply, hleft]⟩
  | right _ _ _ hlower _ ih =>
    obtain ⟨after, hright⟩ := ih
    exact ⟨after, by simp only [Expr.lower, bind_apply, hlower, hright]⟩
  | define _ _ _ _ ih =>
    obtain ⟨after, hvalue⟩ := ih
    exact ⟨after, by simp only [Expr.lower, bind_apply, hvalue]⟩
  | lambda _ _ _ _ hdistinct _ _ ih => exact (lambda_eq_unresolved_iff hdistinct).mpr ih

/-- An expression whose lowering fails to resolve a name stops at a token that is spelled so. -/
theorem Derives.exists_stopsAt (hderives : Derives levels tokens e)
    (h : ∃ after, e.lower b = (.error (.unresolvedIdentifier name), after)) :
    ∃ stop, StopsAt b tokens e stop ∧ stop.lexeme = name := by
  induction hderives generalizing b with
  | number => cases h with | intro _ h => cases h
  | @identifier _ token hkind =>
    obtain ⟨after, h⟩ := h
    have hname := resolve_eq_error h
    rw [LoweringError.unresolvedIdentifier.injEq] at hname
    subst hname
    exact ⟨token, .identifier hkind (resolve_eq_unresolved_iff.mp ⟨after, h⟩), rfl⟩
  | paren hopen _ hclose ih =>
    obtain ⟨stop, hinner, hname⟩ := ih h
    exact ⟨stop, .paren hopen hinner hclose, hname⟩
  | binary hkind hop hleft hright ihl ihr =>
    obtain ⟨after, h⟩ := h
    rcases bind_eq_error h with h | ⟨value, b₁, hlower, h⟩
    · obtain ⟨stop, hstop, hname⟩ := ihl ⟨after, h⟩
      exact ⟨stop, .left hkind hop hstop hright, hname⟩
    rcases bind_eq_error h with h | ⟨_, _, _, h⟩
    · obtain ⟨stop, hstop, hname⟩ := ihr ⟨after, h⟩
      exact ⟨stop, .right hkind hop hleft hlower hstop, hname⟩
    · obtain ⟨_, ⟨⟩⟩ := exists_refusal_of_operation h
  | define hkind hword hname _ ih =>
    obtain ⟨after, h⟩ := h
    rcases bind_eq_error h with h | ⟨_, _, _, h⟩
    · obtain ⟨stop, hstop, hspelled⟩ := ih ⟨after, h⟩
      exact ⟨stop, .define hkind hword hname hstop, hspelled⟩
    · obtain ⟨_, ⟨⟩⟩ := exists_refusal_of_define h
  | lambda hkind hword hopen hnames hdistinct hclose _ ih =>
    obtain ⟨stop, hstop, hname⟩ := ih ((lambda_eq_unresolved_iff hdistinct).mp h)
    exact ⟨stop, .lambda hkind hword hopen hnames hdistinct hclose hstop, hname⟩

/-- Lowering stops at no more than one of the tokens. -/
theorem StopsAt.unique {others : List Token} {e' : Expr} (h : StopsAt b tokens e stop)
    (h' : StopsAt b others e' other) (heq : tokens = others) : stop = other := by
  obtain ⟨_, hderives⟩ := h.exists_derives
  obtain ⟨_, hderives'⟩ := h'.exists_derives
  have hexpr : e = e' := (hderives.unique hderives' (congrArg (· ++ []) heq)).2
  clear hderives hderives'
  -- the first token tells which form it is, so only equal forms are left after the `simp_all`
  induction h generalizing others e' other with
  | identifier hkind _ => cases h' <;> simp_all
  | paren hopen hinner _ ih =>
    cases h' with
    | paren _ hinner' _ =>
      exact ih hinner' (List.append_inj_left' (List.cons.inj heq).2 rfl) hexpr
    | _ => simp_all
  | left hkind hop hleft hright ih =>
    obtain ⟨_, hderives⟩ := hleft.exists_derives
    cases h' with
    | left _ _ hleft' _ =>
      obtain ⟨_, hderives'⟩ := hleft'.exists_derives
      obtain ⟨htokens, hlhs⟩ := hderives.unique hderives' (List.cons.inj heq).2
      exact ih hleft' htokens hlhs
    | right _ _ hderives' hlower' _ =>
      obtain ⟨rfl, rfl⟩ := hderives.unique hderives' (List.cons.inj heq).2
      obtain ⟨_, hfails⟩ := hleft.lower_eq
      rw [hlower'] at hfails
      cases hfails
    | _ => simp_all
  | right hkind hop hderives hlower hright ih =>
    cases h' with
    | left _ _ hleft' _ =>
      obtain ⟨_, hderives'⟩ := hleft'.exists_derives
      obtain ⟨rfl, rfl⟩ := hderives.unique hderives' (List.cons.inj heq).2
      obtain ⟨_, hfails⟩ := hleft'.lower_eq
      rw [hlower] at hfails
      cases hfails
    | right _ _ hderives' hlower' hright' =>
      obtain ⟨rfl, rfl⟩ := hderives.unique hderives' (List.cons.inj heq).2
      rw [hlower, Prod.mk.injEq] at hlower'
      obtain ⟨_, rfl⟩ := hlower'
      exact ih hright' (List.append_cancel_left (List.cons.inj heq).2)
        (Expr.binary.inj hexpr).2.2
    | _ => simp_all
  | define hkind hword _ hvalue ih =>
    cases h' with
    | define _ _ _ hvalue' =>
      exact ih hvalue' (List.cons.inj (List.cons.inj heq).2).2 (Expr.define.inj hexpr).2
    | _ => simp_all
  | lambda hkind hword _ _ _ _ hbody ih =>
    cases h' with
    | lambda _ _ _ _ _ _ hbody' =>
      obtain ⟨hnames, hbodies⟩ := Expr.lambda.inj hexpr
      have hlength := congrArg List.length hnames
      rw [List.length_map, List.length_map] at hlength
      obtain ⟨rfl, hrest⟩ := List.append_inj (List.cons.inj (List.cons.inj heq).2).2 hlength
      exact ih hbody' (List.cons.inj hrest).2 hbodies
    | _ => simp_all

/-- An expression of a program fails to resolve a name if it does so where it is lowered. -/
theorem lowerTopLevel_eq_unresolved_iff :
    (∃ after, e.lowerTopLevel b = (.error (.unresolvedIdentifier name), after)) ↔
      ∃ after, e.lower (b.atTopLevel e) = (.error (.unresolvedIdentifier name), after) := by
  unfold Expr.lowerTopLevel Builder.atTopLevel
  split
  · exact Iff.rfl
  · exact lambda_eq_unresolved_iff List.nodup_nil

variable {exprs : List Expr}

/-- Where the lowering of a program stops stands an identifier. -/
theorem ProgramStopsAt.mem (h : ProgramStopsAt b tokens exprs stop) :
    stop ∈ tokens ∧ stop.kind = .identifier := by
  induction h with
  | here _ hfirst _ => exact ⟨List.mem_append_left _ hfirst.mem.1, hfirst.mem.2⟩
  | later _ _ _ ih => exact ⟨List.mem_append_right _ ih.1, ih.2⟩

/-- A program whose lowering fails to resolve a name stops at a token that is spelled so. -/
theorem DerivesEach.exists_stopsAt (hderives : DerivesEach tokens exprs)
    (h : ∃ after, Expr.lowerEach exprs b = (.error (.unresolvedIdentifier name), after)) :
    ∃ stop, ProgramStopsAt b tokens exprs stop ∧ stop.lexeme = name := by
  induction hderives generalizing b with
  | nil => cases h with | intro _ h => cases h
  | cons hfirst hrest ih =>
    obtain ⟨after, h⟩ := h
    rcases bind_eq_error h with h | ⟨value, b₁, hlower, h⟩
    · obtain ⟨stop, hstop, hname⟩ :=
        hfirst.exists_stopsAt (lowerTopLevel_eq_unresolved_iff.mp ⟨after, h⟩)
      exact ⟨stop, .here hfirst hstop hrest, hname⟩
    rcases bind_eq_error h with h | ⟨_, _, _, h⟩
    · obtain ⟨stop, hstop, hname⟩ := ih ⟨after, h⟩
      exact ⟨stop, .later hfirst hlower hstop, hname⟩
    · cases h

/-- The lowering of a program stops at no more than one of its tokens. -/
theorem ProgramStopsAt.unique {others : List Token} {exprs' : List Expr}
    (h : ProgramStopsAt b tokens exprs stop) (h' : ProgramStopsAt b others exprs' other)
    (heq : tokens = others) : stop = other := by
  induction h generalizing others exprs' other with
  | here hderives hfirst _ =>
    obtain ⟨after, hfails⟩ := lowerTopLevel_eq_unresolved_iff.mpr hfirst.lower_eq
    cases h' with
    | here hderives' hfirst' _ =>
      obtain ⟨htokens, rfl⟩ := hderives.unique hderives' heq
      exact hfirst.unique hfirst' htokens
    | later hderives' hlower' _ =>
      obtain ⟨_, rfl⟩ := hderives.unique hderives' heq
      rw [hlower'] at hfails
      cases hfails
  | later hderives hlower _ ih =>
    cases h' with
    | here hderives' hfirst' _ =>
      obtain ⟨_, rfl⟩ := hderives.unique hderives' heq
      obtain ⟨after, hfails⟩ := lowerTopLevel_eq_unresolved_iff.mpr hfirst'.lower_eq
      rw [hlower] at hfails
      cases hfails
    | later hderives' hlower' hrest' =>
      obtain ⟨rfl, rfl⟩ := hderives.unique hderives' heq
      rw [hlower, Prod.mk.injEq] at hlower'
      obtain ⟨_, rfl⟩ := hlower'
      exact ih hrest' (List.append_cancel_left heq)

/-- The tokens of a source start one behind the other. -/
theorem Token.pairwise_start_lt {source : String} (h : Token.ofSource source = .ok tokens) :
    tokens.Pairwise fun a b => a.span.start < b.span.start := by
  have hsplits := splits_of_ofSource h
  have hordered := (List.pairwise_append.mp hsplits.ordered).1
  rw [List.pairwise_map] at hordered
  refine hordered.imp_of_mem fun ha _ hle => ?_
  have hlt := hsplits.nonempty _ (span_mem_places ha)
  omega

namespace Error

variable {source : String}

/-- The place of a name that is not resolved is that of the first identifier which is spelled so. -/
theorem exists_locate_first (htokens : Token.ofSource source = .ok tokens) (hstop : stop ∈ tokens)
    (hkind : stop.kind = .identifier) (hname : stop.lexeme = name) :
    ∃ first ∈ tokens, first.kind = .identifier ∧ first.lexeme = name ∧
      (Error.lowering (.unresolvedIdentifier name)).locate source = some first.span ∧
      ∀ other ∈ tokens, other.kind = .identifier → other.lexeme = name →
        other = first ∨ first.span.start < other.span.start := by
  obtain ⟨before, first, behind, rfl, hfirstKind, hfirstName, hbefore, hlocate⟩ :=
    exists_locate_unresolved htokens ⟨stop, hstop, hkind, hname⟩
  refine ⟨first, by simp, hfirstKind, hfirstName, hlocate, fun other hother hkind hname => ?_⟩
  rcases List.mem_append.mp hother with hother | hother
  · exact absurd hname (hbefore other hother hkind)
  · rcases List.mem_cons.mp hother with rfl | hother
    · exact .inl rfl
    · have hordered := (List.pairwise_append.mp (pairwise_start_lt htokens)).2.1
      exact .inr ((List.pairwise_cons.mp hordered).1 other hother)

end Error

namespace Module

/-- A source that is not lowered has been read. -/
theorem exists_lowerEach_of_compile {m : Module} {source : String} {error : LoweringError}
    (h : (m.compile source).result = .error (.lowering error)) :
    ∃ exprs, parseSource source = .ok exprs ∧
      ∃ after, Expr.lowerEach exprs (Builder.ofModule m) = (.error error, after) := by
  rcases m.compile_cases source with ⟨error', hresult, _, hparse⟩ | ⟨exprs, hparse, hresult, _⟩
  · rw [h, Except.error.injEq] at hresult
    rw [← hresult] at hparse
    unfold parseSource at hparse
    split at hparse
    · cases hparse
    · split at hparse <;> cases hparse
  · refine ⟨exprs, hparse, ?_⟩
    rw [h, lowerAll] at hresult
    split at hresult
    · cases hresult
    · rename_i after hlower
      cases hresult
      exact ⟨after, hlower⟩

/-- When a source is refused for a name that is not resolved, there is exactly one token at which
lowering has stopped, an identifier that is spelled like the name. What is shown is an identifier
that is spelled so too and does not stand behind it; it is this token exactly if no identifier in
front of it is spelled so. -/
theorem locate_unresolved_iff (m : Module) {source name : String}
    (h : (m.compile source).result = .error (.lowering (.unresolvedIdentifier name))) :
    ∃ tokens exprs stop, Token.ofSource source = .ok tokens ∧ parseSource source = .ok exprs ∧
      ProgramStopsAt (Builder.ofModule m) tokens exprs stop ∧
      (∀ other, ProgramStopsAt (Builder.ofModule m) tokens exprs other → other = stop) ∧
      stop.lexeme = name ∧
      (∃ first ∈ tokens, first.lexeme = name ∧ first.span.start ≤ stop.span.start ∧
        (Error.lowering (.unresolvedIdentifier name)).locate source = some first.span) ∧
      ((Error.lowering (.unresolvedIdentifier name)).locate source = some stop.span ↔
        ∀ other ∈ tokens, other.kind = .identifier → other.lexeme = name →
          stop.span.start ≤ other.span.start) := by
  obtain ⟨exprs, hparse, hlower⟩ := exists_lowerEach_of_compile h
  obtain ⟨tokens, htokens, hprogram⟩ := parseSource_eq_ok_iff.mp hparse
  obtain ⟨stop, hstop, hname⟩ := (parseProgram_eq_ok_iff.mp hprogram).2.exists_stopsAt hlower
  obtain ⟨hmem, hkind⟩ := hstop.mem
  obtain ⟨first, hfirst, hfirstKind, hfirstName, hlocate, hothers⟩ :=
    Error.exists_locate_first htokens hmem hkind hname
  have hle : ∀ other ∈ tokens, other.kind = .identifier → other.lexeme = name →
      first.span.start ≤ other.span.start := by
    intro other hother hotherKind hotherName
    rcases hothers other hother hotherKind hotherName with rfl | hlt
    · exact Nat.le_refl _
    · exact Nat.le_of_lt hlt
  refine ⟨tokens, exprs, stop, htokens, hparse, hstop, fun other hother => hother.unique hstop rfl,
    hname, ⟨first, hfirst, hfirstName, hle stop hmem hkind hname, hlocate⟩, ?_⟩
  rw [hlocate, Option.some.injEq]
  constructor
  · intro hspan
    rw [← hspan]
    exact hle
  · intro hfront
    have hback := hfront first hfirst hfirstKind hfirstName
    rcases hothers stop hmem hkind hname with rfl | hlt
    · rfl
    · omega

/-- A name that is spelled in one place only is shown there. -/
theorem locate_unresolved_iff_spelled_once :
    let m := ofRequests "m" [.call (.compile "(define k 3)")]
    let source := "(lambda (x) (+ k y))"
    (m.compile source).result = .error (.lowering (.unresolvedIdentifier "y")) ∧
      ∃ tokens exprs stop, Token.ofSource source = .ok tokens ∧
        ProgramStopsAt (Builder.ofModule m) tokens exprs stop ∧ stop.span = ⟨17, 18⟩ ∧
        (Error.lowering (.unresolvedIdentifier "y")).locate source = some stop.span := by
  intro m source
  have hfails : (m.compile source).result = .error (.lowering (.unresolvedIdentifier "y")) := by
    decide +kernel
  obtain ⟨tokens, exprs, stop, htokens, _, hstop, _, hname, _, hiff⟩ :=
    m.locate_unresolved_iff hfails
  have hspans : (Token.ofSource source).toOption.all (fun tokens => tokens.all fun token =>
      token.lexeme ≠ "y" || token.span = ⟨17, 18⟩) = true := by
    decide +kernel
  rw [htokens] at hspans
  have hspan : ∀ token ∈ tokens, token.lexeme = "y" → token.span = ⟨17, 18⟩ := by
    intro token htoken hlexeme
    simpa [hlexeme] using List.all_eq_true.mp hspans token htoken
  have hstopSpan := hspan stop hstop.mem.1 hname
  refine ⟨hfails, tokens, exprs, stop, htokens, hstop, hstopSpan, hiff.mpr ?_⟩
  intro other hother _ hspelled
  exact Nat.le_of_eq (congrArg Span.start (hstopSpan.trans (hspan other hother hspelled).symm))

/-- The place that is shown need not be that of the token at which lowering has stopped: in a new
session the second `x` is not resolved, and the first one is shown. -/
theorem exists_unresolved_not_located :
    let m := ofRequests "m" []
    let source := "(define x x)"
    (m.compile source).result = .error (.lowering (.unresolvedIdentifier "x")) ∧
      ∃ tokens exprs stop, Token.ofSource source = .ok tokens ∧ parseSource source = .ok exprs ∧
        ProgramStopsAt (Builder.ofModule m) tokens exprs stop ∧
        (∀ other, ProgramStopsAt (Builder.ofModule m) tokens exprs other → other = stop) ∧
        stop.span = ⟨10, 11⟩ ∧
        (Error.lowering (.unresolvedIdentifier "x")).locate source = some ⟨8, 9⟩ := by
  intro m source
  let opening : Token := ⟨.openParen, "(", ⟨0, 1⟩⟩
  let keyword : Token := ⟨.keyword, "define", ⟨1, 7⟩⟩
  let name : Token := ⟨.identifier, "x", ⟨8, 9⟩⟩
  let stop : Token := ⟨.identifier, "x", ⟨10, 11⟩⟩
  let closing : Token := ⟨.closeParen, ")", ⟨11, 12⟩⟩
  have htokens : Token.ofSource source = .ok [opening, keyword, name, stop, closing] := by
    decide +kernel
  have hvalue : Derives 1 [stop] (.identifier "x") := .identifier rfl
  have hdefine : Derives 2 [keyword, name, stop] (.define "x" (.identifier "x")) :=
    .define rfl rfl rfl hvalue
  have hderives : Derives maxNesting [opening, keyword, name, stop, closing]
      (.define "x" (.identifier "x")) :=
    (Derives.paren rfl hdefine rfl).mono (by decide)
  have hends : StopsAt (Builder.ofModule m) [stop] (.identifier "x") stop := .identifier rfl rfl
  have hstop : StopsAt (Builder.ofModule m) [opening, keyword, name, stop, closing]
      (.define "x" (.identifier "x")) stop :=
    .paren rfl (.define rfl rfl rfl hends) rfl
  have hprogram : ProgramStopsAt (Builder.ofModule m) [opening, keyword, name, stop, closing]
      [.define "x" (.identifier "x")] stop :=
    .here hderives hstop .nil
  have hparse : parseSource source = .ok [.define "x" (.identifier "x")] :=
    parseSource_eq_ok_singleton.mpr ⟨_, htokens, hderives⟩
  exact ⟨by decide +kernel, _, _, stop, htokens, hparse, hprogram,
    fun _ hother => hother.unique hprogram rfl, rfl, by decide +kernel⟩

end Module

end LambdaArith
