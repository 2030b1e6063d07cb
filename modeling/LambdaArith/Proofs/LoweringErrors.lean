import LambdaArith.Proofs.Acceptance

/-!
# What lowering errors are about

Lowering asks for what it has made itself: a global that is copied is there, an instruction comes to
the end of a block that is open, and what is named is a new function. So the backend refuses it for
few reasons only, and an error that names something names what is in the expression.
-/

namespace LambdaArith

/-- The builder stays where it is while an expression is lowered, whatever this comes to. A function
that is made or named meanwhile is a new one. -/
theorem Lowers.keeps_place {b after : Builder} {e : Expr} {value : Value}
    (h : Lowers b e value after) (hm : b.module.Consistent) {function : Nat}
    {parameters : List String} (hb : b.Placed function parameters) :
    after.Placed function parameters := by
  induction h with
  | number => exact hb
  | identifier => exact hb
  | fold _ hl _ ihl ihr => exact ihr (hl.consistent hm) (ihl hm hb)
  | emit op hl _ _ _ _ hpoint happend ihl ihr =>
    exact (ihr (hl.consistent hm) (ihl hm hb)).advance hpoint happend rfl _
  | defined _ _ hadd ih =>
    obtain ⟨_, _, _, _, rfl⟩ := Module.addGlobal_eq_ok hadd
    exact (ih hm hb).of_eq rfl rfl
  | @named b b₁ e value m name he _ hname ih =>
    refine (ih hm hb).of_getElem?_eq rfl fun f hpoint hf => ?_
    obtain ⟨symbol, rfl, _, ⟨_, rfl⟩ | ⟨_, rfl⟩⟩ := Module.setName_eq_ok hname
    · exact hf
    · cases symbol with
      | global id => exact hf
      | function id =>
        have hid := (he.framed (Builder.framed_self hm)).2 id rfl
        have hlt := hb.lt_length (he.point_eq.symm.trans hpoint)
        simp only [Builder.advance_module, Module.rename]
        rw [List.getElem?_modify_ne _ _ (by omega), hf]
  | @lambda b b₁ names body value result p m _ hbody _ hpoint happend _ =>
    have henter : (b.enter names).Framed b.module none := by
      refine ⟨Builder.consistent_enter hm names, ?_, .inr ⟨_, rfl, Nat.le_refl _⟩⟩
      exact ((Module.Frame.refl b.module none).addFunction names).appendBlock (Nat.le_refl _)
        (b.module.appendBlock_addFunction names)
    have hentry : some ⟨b.module.functions.length, 0⟩ = some p := hbody.point_eq.symm.trans hpoint
    have hnew : b.module.functions.length ≤ p.function :=
      Nat.le_of_eq (congrArg InsertPoint.function (Option.some.inj hentry))
    have hframe := (hbody.framed henter).1.frame.append (.inr hnew) happend
    refine hb.of_getElem?_eq rfl fun f _ hf => ?_
    obtain ⟨g, hg, hgrown⟩ := hframe.function_grown function f hf
    rw [hgrown.eq_of_none] at hg
    exact hg

/-- What lowering an expression can fail for, and what is named then. -/
def Expr.Blames (e : Expr) : LoweringError → Prop
  | .unresolvedIdentifier name => name ∈ e.names
  | .repeatedParameter _ => ¬ e.ParametersDistinct
  | .backend (.duplicateSymbol name) => name ∈ e.names
  | .backend (.nonConstantInitializer name) => name ∈ e.names
  | .backend (.noInsertionPoint instruction) => ∃ op : Operator, instruction = op.resultName
  | .backend .notANumber => True
  | .backend (.unknownTarget _) => False
  | .backend .unnameable => False
  | .backend .blockTerminated => False
  | .backend (.dangling _) => False

/-- What a part of an expression fails for, the expression fails for. -/
theorem Expr.Blames.mono {part e : Expr} {error : LoweringError} (h : part.Blames error)
    (hnames : part.names ⊆ e.names) (hdistinct : e.ParametersDistinct → part.ParametersDistinct) :
    e.Blames error := by
  cases error with
  | unresolvedIdentifier name => exact hnames h
  | repeatedParameter name => exact fun he => h (hdistinct he)
  | backend error =>
    cases error with
    | duplicateSymbol name => exact hnames h
    | nonConstantInitializer name => exact hnames h
    | _ => exact h

namespace Module

variable {m : Module} {name : String} {refusal : BackendError}

/-- A function that exists is refused a name that something else has, and no other. -/
theorem setName_eq_error {id : Nat} (hid : id < m.functions.length)
    (h : m.setName (.function id) name = .error refusal) : refusal = .duplicateSymbol name := by
  simp only [setName, symbolOf, hid, if_true] at h
  split at h
  · split at h
    · cases h
    · cases h
      rfl
  · cases h

/-- A global is refused under a name that something else has, and if its initializer is neither a
constant nor a global, which then has to be there. -/
theorem addGlobal_eq_error {value : Value}
    (hglobal : ∀ id, value = .global id → ∃ x, m.initializer? id = some x)
    (h : m.addGlobal name value = .error refusal) :
    refusal = .duplicateSymbol name ∨ refusal = .nonConstantInitializer name := by
  unfold addGlobal at h
  split at h
  · rename_i hinitial
    cases h
    cases value with
    | constant x => cases hinitial
    | global id =>
      obtain ⟨x, hx⟩ := hglobal id rfl
      simp only [initialValue, hx] at hinitial
      cases hinitial
    | _ =>
      cases hinitial
      exact .inr rfl
  · split at h
    · cases h
      exact .inl rfl
    · cases h

end Module

namespace Build

variable {α β : Type} {b after : Builder} {error : LoweringError}

/-- Work after other work fails if the first does, or the second behind it. -/
theorem bind_eq_error {work : Build α} {next : α → Build β}
    (h : (work >>= next) b = (.error error, after)) :
    work b = (.error error, after) ∨
      ∃ x middle, work b = (.ok x, middle) ∧ next x middle = (.error error, after) := by
  rw [bind_apply] at h
  split at h
  · rename_i x middle hwork
    exact .inr ⟨x, middle, hwork, h⟩
  · rename_i hwork
    cases h
    exact .inl hwork

/-- An operation of the backend fails as work if it is refused. -/
theorem apply_eq_error {operation : Module → Except BackendError (α × Module)}
    (h : apply operation b = (.error error, after)) :
    ∃ refusal, operation b.module = .error refusal ∧ error = .backend refusal := by
  unfold apply at h
  split at h
  · cases h
  · rename_i refusal hrefused
    cases h
    exact ⟨refusal, hrefused, rfl⟩

/-- Asking for the insertion point fails if there is none. -/
theorem requirePoint_eq_error {instruction : String}
    (h : requirePoint instruction b = (.error error, after)) :
    b.point = none ∧ error = .backend (.noInsertionPoint instruction) := by
  simp only [requirePoint, bind_apply, get] at h
  cases hpoint : b.point with
  | none =>
    rw [hpoint] at h
    cases h
    exact ⟨rfl, rfl⟩
  | some p =>
    rw [hpoint] at h
    cases h

/-- What is done at the insertion point after an event fails if there is none, or if it does so
there. -/
theorem atPoint_eq_error {instruction : String} {event : InsertPoint → Event}
    {next : InsertPoint → Build α}
    (h : (requirePoint instruction >>= fun p => record (event p) >>= fun _ => next p) b =
      (.error error, after)) :
    (b.point = none ∧ error = .backend (.noInsertionPoint instruction)) ∨
      ∃ p, b.point = some p ∧
        next p { b with events := b.events ++ [event p] } = (.error error, after) := by
  rcases bind_eq_error h with hnone | ⟨p, middle, hp, hnext⟩
  · exact .inl (requirePoint_eq_error hnone)
  · obtain ⟨hpoint, rfl⟩ := requirePoint_eq_ok.mp hp
    exact .inr ⟨p, hpoint, hnext⟩

variable {function : Nat} {parameters : List String}

/-- At the end of an open function an instruction can be added. -/
theorem append_ne_error (hb : b.Placed function parameters) {p : InsertPoint}
    (hpoint : b.point = some p) {wanted : Option String} {action : Action} {events : List Event} :
    apply (fun m => m.append p wanted action) { b with events := events } ≠
      (.error error, after) := by
  intro h
  obtain ⟨value, m, happend⟩ := hb.exists_append hpoint wanted action
  obtain ⟨refusal, hrefused, _⟩ := apply_eq_error h
  rw [happend] at hrefused
  cases hrefused

/-- Applying an operator fails outside of functions, or with an operand that is no double. -/
theorem operation_eq_error {op : Operator} {lhs rhs : Value} (hb : b.Placed function parameters)
    (h : operation op lhs rhs b = (.error error, after)) :
    error = .backend .notANumber ∨ error = .backend (.noInsertionPoint op.resultName) := by
  unfold operation at h
  split at h
  · split at h
    · cases h
    · rcases atPoint_eq_error h with ⟨_, herror⟩ | ⟨p, hpoint, h⟩
      · exact .inr herror
      · exact absurd h (append_ne_error hb hpoint)
  · cases h
    exact .inl rfl

/-- Returning in a function fails with a value that is no double. -/
theorem ret_eq_error {value : Value} (hb : b.Placed function parameters) (hpoint : b.point ≠ none)
    (h : ret value b = (.error error, after)) : error = .backend .notANumber := by
  unfold ret at h
  split at h
  · rcases atPoint_eq_error h with ⟨hnone, _⟩ | ⟨p, hsome, h⟩
    · exact absurd hnone hpoint
    · rcases bind_eq_error h with h | ⟨_, _, _, h⟩
      · exact absurd h (append_ne_error hb hsome)
      · cases h
  · cases h
    rfl

/-- Looking up an identifier fails if it is not found. -/
theorem resolve_eq_error {name : String} (h : resolve name b = (.error error, after)) :
    error = .unresolvedIdentifier name := by
  simp only [resolve, bind_apply, get] at h
  cases hresolve : b.module.resolve (b.point.map InsertPoint.function) name with
  | none =>
    rw [hresolve] at h
    cases h
    rfl
  | some resolution =>
    rw [hresolve] at h
    cases h

/-- Defining a name fails if something else has it, or with a value that no global can be
initialized with. -/
theorem define_eq_error {name : String} {value : Value}
    (hglobal : ∀ id, value = .global id → ∃ x, b.module.initializer? id = some x)
    (h : define name value b = (.error error, after)) :
    error = .backend (.duplicateSymbol name) ∨ error = .backend (.nonConstantInitializer name) := by
  simp only [define, bind_apply, get] at h
  split at h
  · rename_i hfunction
    rcases bind_eq_error h with h | ⟨_, _, _, h⟩
    · obtain ⟨refusal, hrefused, rfl⟩ := apply_eq_error h
      cases hname : b.module.setName value name with
      | ok m =>
        rw [hname] at hrefused
        cases hrefused
      | error refusal' =>
        rw [hname] at hrefused
        cases hrefused
        cases value with
        | function id =>
          exact .inl (congrArg _ (Module.setName_eq_error (of_decide_eq_true hfunction) hname))
        | _ => cases hfunction
    · cases h
  · rcases bind_eq_error h with h | ⟨_, _, _, h⟩
    · obtain ⟨refusal, hrefused, rfl⟩ := apply_eq_error h
      exact (Module.addGlobal_eq_error hglobal hrefused).imp (congrArg _) (congrArg _)
    · cases h

/-- Making a function fails if a parameter is repeated, if its body fails, or if it comes to a value
that cannot be returned. -/
theorem lambda_eq_error {parameters : List String} {body : Build Value}
    (h : lambda parameters body b = (.error error, after)) :
    (∃ name, error = .repeatedParameter name ∧ ¬ parameters.Nodup) ∨
      (parameters.Nodup ∧ ∃ b₁, body (b.enter parameters) = (.error error, b₁)) ∨
      (parameters.Nodup ∧ ∃ result b₁ b₂, body (b.enter parameters) = (.ok result, b₁) ∧
        ret result b₁ = (.error error, b₂)) := by
  cases hrepeated : firstRepeated [] parameters with
  | some name =>
    simp only [lambda, hrepeated, fail] at h
    cases h
    refine .inl ⟨name, rfl, fun hnodup => ?_⟩
    rw [firstRepeated_nil_eq_none_iff.mpr hnodup] at hrepeated
    cases hrepeated
  | none =>
    have hnodup := firstRepeated_nil_eq_none_iff.mp hrepeated
    rw [lambda_apply hrepeated, Prod.mk.injEq] at h
    obtain ⟨hresult, rfl⟩ := h
    rcases bind_eq_error (Prod.ext hresult rfl) with h | ⟨result, b₁, hbody, h⟩
    · exact .inr (.inl ⟨hnodup, _, h⟩)
    · rcases bind_eq_error h with h | ⟨_, _, _, h⟩
      · exact .inr (.inr ⟨hnodup, result, b₁, _, hbody, h⟩)
      · cases h

end Build

namespace Expr

variable {b after : Builder} {e : Expr} {error : LoweringError}

/-- What lowering an expression fails for is about the expression. -/
theorem blames_of_lower (e : Expr) {function : Nat} {parameters : List String}
    (hm : b.module.Consistent) (hb : b.Placed function parameters)
    (h : e.lower b = (.error error, after)) : e.Blames error := by
  induction e generalizing b after function parameters with
  | number x => cases h
  | identifier name =>
    rw [Build.resolve_eq_error h]
    exact List.mem_singleton.mpr rfl
  | binary op lhs rhs ihl ihr =>
    rcases Build.bind_eq_error h with h | ⟨left, b₁, hleft, h⟩
    · exact (ihl hm hb h).mono (List.subset_append_left _ _) And.left
    have hl := Lowers.of_lower hleft
    have hb₁ := hl.keeps_place hm hb
    rcases Build.bind_eq_error h with h | ⟨right, b₂, hright, h⟩
    · exact (ihr (hl.consistent hm) hb₁ h).mono (List.subset_append_right _ _) And.right
    have hr := Lowers.of_lower hright
    rcases Build.operation_eq_error (hr.keeps_place (hl.consistent hm) hb₁) h with rfl | rfl
    · trivial
    · exact ⟨op, rfl⟩
  | define name value ih =>
    rcases Build.bind_eq_error h with h | ⟨v, b₁, hvalue, h⟩
    · exact (ih hm hb h).mono (List.subset_cons_self _ _) id
    have hlowers := Lowers.of_lower hvalue
    have hglobal : ∀ id, v = .global id → ∃ x, b₁.module.initializer? id = some x := by
      rintro id rfl
      exact hlowers.exists_initializer hm
    rcases Build.define_eq_error hglobal h with rfl | rfl
    · exact List.mem_cons_self
    · exact List.mem_cons_self
  | lambda names body ih =>
    rcases Build.lambda_eq_error h with ⟨name, rfl, hrepeated⟩ | ⟨hnodup, b₁, hbody⟩ |
      ⟨hnodup, result, b₁, b₂, hbody, hret⟩
    · exact fun hdistinct => hrepeated hdistinct.1
    · exact (ih (Builder.consistent_enter hm names) (b.placed_enter hnodup) hbody).mono
        (List.subset_append_right _ _) And.right
    · have hlowers := Lowers.of_lower hbody
      have hplaced := hlowers.keeps_place (Builder.consistent_enter hm names)
        (b.placed_enter hnodup)
      have hpoint : b₁.point ≠ none := by
        rw [hlowers.point_eq]
        exact nofun
      rw [Build.ret_eq_error hplaced hpoint hret]
      trivial

/-- What lowering an expression of a program fails for is about the expression. -/
theorem blames_of_lowerTopLevel (hm : b.module.Consistent) (hpoint : b.point = none)
    (h : e.lowerTopLevel b = (.error error, after)) : e.Blames error := by
  rw [lowerTopLevel_eq] at h
  have hplaced : b.Placed 0 [] := .outside hpoint rfl
  have hblames := e.topLevel.blames_of_lower hm hplaced h
  unfold topLevel at hblames
  split at hblames
  · exact hblames
  · exact hblames.mono (List.Subset.refl _) fun hdistinct => ⟨List.nodup_nil, hdistinct⟩

/-- What lowering a program fails for is about one of its expressions. -/
theorem blames_of_lowerEach {exprs : List Expr} (hm : b.module.Consistent) (hpoint : b.point = none)
    (h : lowerEach exprs b = (.error error, after)) : ∃ e ∈ exprs, e.Blames error := by
  induction exprs generalizing b with
  | nil => cases h
  | cons e rest ih =>
    rcases Build.bind_eq_error h with h | ⟨value, b₁, hfirst, h⟩
    · exact ⟨e, List.mem_cons_self, blames_of_lowerTopLevel hm hpoint h⟩
    rcases Build.bind_eq_error h with h | ⟨_, _, _, h⟩
    · rw [lowerTopLevel_eq] at hfirst
      have hlowers := Lowers.of_lower hfirst
      obtain ⟨other, hother, hblames⟩ :=
        ih (hlowers.consistent hm) (hlowers.point_eq.trans hpoint) h
      exact ⟨other, List.mem_cons_of_mem _ hother, hblames⟩
    · cases h

end Expr

end LambdaArith
