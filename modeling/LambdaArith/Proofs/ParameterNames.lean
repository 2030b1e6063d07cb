import LambdaArith.Proofs.Evaluation
import LambdaArith.Proofs.LocalNames
import LambdaArith.Proofs.Request
import LambdaArith.Proofs.Shape

/-!
# The names of parameters do not matter

Nothing but the names inside a function depends on what its parameters are called. When they are
renamed where they are bound and where they are used, lowering gives the same value or fails with
the same error, and makes the same instructions. The two lambdas are lowered side by side: this is
shown for each kind of step, in the function with the parameters and in the functions inside it.
-/

namespace LambdaArith

variable {k : Nat} {parameters names : List String} {point : Option InsertPoint}

/-- Builders at one point of modules that are the same but for the names inside a function. -/
structure Builder.SameBut (k : Nat) (parameters names : List String) (point : Option InsertPoint)
    (b c : Builder) : Prop where
  module_same : b.module.SameBut k parameters names c.module
  left_point : b.point = point
  right_point : c.point = point
  events_eq : b.events = c.events

namespace Build

variable {α β : Type}

/-- Two pieces of work at a point have the same result, and leave builders that are the same but for
the names inside the function `k` if they have been so. -/
def Matches (k : Nat) (parameters names : List String) (point : Option InsertPoint)
    (work other : Build α) : Prop :=
  ∀ b c, Builder.SameBut k parameters names point b c →
    (work b).1 = (other c).1 ∧ Builder.SameBut k parameters names point (work b).2 (other c).2

/-- Work without any step. -/
theorem Matches.pure (a : α) :
    Matches k parameters names point (Pure.pure a : Build α) (Pure.pure a) :=
  fun _ _ h => ⟨rfl, h⟩

/-- Failing. -/
theorem Matches.fail (error : LoweringError) :
    Matches k parameters names point (Build.fail error : Build α) (Build.fail error) :=
  fun _ _ h => ⟨rfl, h⟩

/-- Work after other work. -/
theorem Matches.bind {work other : Build α} {next next' : α → Build β}
    (hwork : Matches k parameters names point work other)
    (hnext : ∀ a, Matches k parameters names point (next a) (next' a)) :
    Matches k parameters names point (work >>= next) (other >>= next') := by
  intro b c h
  obtain ⟨hresult, hafter⟩ := hwork b c h
  rw [bind_apply, bind_apply]
  revert hresult hafter
  rcases work b with ⟨result | error, after⟩ <;> rcases other c with ⟨result' | error', after'⟩
  · rintro ⟨⟩ hafter
    exact ⟨rfl, hafter⟩
  · rintro ⟨⟩
  · rintro ⟨⟩
  · rintro ⟨⟩ hafter
    exact hnext _ _ _ hafter

/-- Work that depends on the builder. -/
theorem Matches.get_bind {next next' : Builder → Build β}
    (hnext : ∀ b c, Builder.SameBut k parameters names point b c →
      Matches k parameters names point (next b) (next' c)) :
    Matches k parameters names point (Build.get >>= next) (Build.get >>= next') :=
  fun b c h => hnext b c h b c h

/-- Recording an event. -/
theorem Matches.record (event : Event) :
    Matches k parameters names point (Build.record event) (Build.record event) :=
  fun _ _ h => ⟨rfl, h.module_same, h.left_point, h.right_point,
    congrArg (· ++ [event]) h.events_eq⟩

/-- An operation of the backend. -/
theorem Matches.apply {operation other : Module → Except BackendError (α × Module)}
    (h : ∀ m n, m.SameBut k parameters names n →
      Module.SameButAnswers k parameters names (operation m) (other n)) :
    Matches k parameters names point (Build.apply operation) (Build.apply other) := by
  intro b c hbc
  have hanswers := h _ _ hbc.module_same
  unfold Build.apply
  revert hanswers
  rcases operation b.module with error | ⟨a, m⟩ <;> rcases other c.module with error' | ⟨a', n⟩
  · rintro ⟨⟩
    exact ⟨rfl, hbc⟩
  · rintro ⟨⟩
  · rintro ⟨⟩
  · rintro ⟨rfl, hmn⟩
    exact ⟨rfl, hmn, hbc.left_point, hbc.right_point, hbc.events_eq⟩

/-- Asking for the insertion point. -/
theorem requirePoint_matches (instruction : String) :
    Matches k parameters names point (requirePoint instruction) (requirePoint instruction) := by
  refine Matches.get_bind fun b c h => ?_
  rw [h.left_point, h.right_point]
  split
  · exact Matches.fail _
  · exact Matches.pure _

/-- Applying an operator. -/
theorem operation_matches (op : Operator) (lhs rhs : Value) :
    Matches k parameters names point (operation op lhs rhs) (operation op lhs rhs) := by
  unfold operation
  split
  · split
    · exact Matches.pure _
    · refine (requirePoint_matches _).bind fun p => (Matches.record _).bind fun _ => ?_
      exact Matches.apply fun m n h => h.append p _ _
  · exact Matches.fail _

/-- Returning from a function. -/
theorem ret_matches (value : Value) :
    Matches k parameters names point (ret value) (ret value) := by
  unfold ret
  split
  · refine (requirePoint_matches _).bind fun p => (Matches.record _).bind fun _ => ?_
    exact (Matches.apply fun m n h => h.append p _ _).bind fun _ => Matches.pure _
  · exact Matches.fail _

/-- Defining a name. -/
theorem define_matches (name : String) (value : Value) :
    Matches k parameters names point (define name value) (define name value) := by
  refine Matches.get_bind fun b c h => ?_
  rw [h.module_same.isFunction_eq]
  split
  · refine (Matches.apply fun m n h => h.setName value name).bind fun _ => ?_
    exact (Matches.record _).bind fun _ => Matches.pure _
  · refine (Matches.apply fun m n h => h.addGlobal name value).bind fun _ => ?_
    exact (Matches.record _).bind fun _ => Matches.pure _

/-- Looking up two names that stand for the same. If they stand for nothing, they are one name. -/
theorem resolve_matches {name other : String}
    (hsame : ∀ m n : Module, m.SameBut k parameters names n →
      m.resolve (point.map InsertPoint.function) name =
        n.resolve (point.map InsertPoint.function) other)
    (hnone : ∀ m n : Module, m.SameBut k parameters names n →
      m.resolve (point.map InsertPoint.function) name = none → name = other) :
    Matches k parameters names point (resolve name) (resolve other) := by
  refine Matches.get_bind fun b c h => ?_
  rw [h.left_point, h.right_point, ← hsame _ _ h.module_same]
  split
  · rename_i heq
    rw [hnone _ _ h.module_same heq]
    exact Matches.fail _
  · exact Matches.pure _

/-- The body of a function and its return. -/
theorem body_matches {body other : Build Value} (value : Value)
    (hbody : Matches k parameters names point body other) :
    Matches k parameters names point
      (body >>= fun result => ret result >>= fun _ => Pure.pure value)
      (other >>= fun result => ret result >>= fun _ => Pure.pure value) :=
  hbody.bind fun result => (ret_matches result).bind fun _ => Matches.pure _

/-- Making a function inside the one with other names. Its number is another one. -/
theorem lambda_matches (locals : List String) {body : Build Value}
    (hbody : ∀ id, id ≠ k → Matches k parameters names (some ⟨id, 0⟩) body body) :
    Matches k parameters names point (lambda locals body) (lambda locals body) := by
  intro b c h
  cases hdistinct : firstRepeated [] locals with
  | some name =>
    simp only [lambda, hdistinct]
    exact Matches.fail _ b c h
  | none =>
    rw [lambda_apply hdistinct, lambda_apply hdistinct, ← h.module_same.length_eq]
    have henter : Builder.SameBut k parameters names (some ⟨b.module.functions.length, 0⟩)
        (b.enter locals) (c.enter locals) :=
      ⟨h.module_same.openFunction locals, rfl, by rw [h.module_same.length_eq]; rfl, h.events_eq⟩
    have hne : b.module.functions.length ≠ k := Nat.ne_of_gt h.module_same.lt_length
    obtain ⟨hresult, hafter⟩ :=
      body_matches (.function b.module.functions.length) (hbody _ hne) _ _ henter
    exact ⟨hresult, hafter.module_same, h.left_point, h.right_point, hafter.events_eq⟩

end Build

namespace Expr

open Build

/-- The name that a parameter has got; every other name is as it was. -/
def replacement (parameters names : List String) (name : String) : String :=
  ((parameters.zip names).lookup name).getD name

/-- The body of a function with other names for its parameters. The lambdas inside it do not see
them. -/
def renameParameters (replace : String → String) : Expr → Expr
  | number x => number x
  | binary op lhs rhs => binary op (lhs.renameParameters replace) (rhs.renameParameters replace)
  | define name value => define name (value.renameParameters replace)
  | lambda locals body => lambda locals body
  | identifier name => identifier (replace name)

/-- Parameters are renamed in their order. -/
theorem exists_replacement (hparameters : parameters.Nodup)
    (hlength : names.length = parameters.length) {name : String} (hname : name ∈ parameters) :
    ∃ index : Nat, parameters[index]? = some name ∧
      names[index]? = some (replacement parameters names name) := by
  obtain ⟨index, hlt, hindex⟩ := List.mem_iff_getElem.mp hname
  have hsome : parameters[index]? = some name := by rw [List.getElem?_eq_getElem hlt, hindex]
  have hother := List.getElem?_eq_getElem (hlength ▸ hlt)
  refine ⟨index, hsome, ?_⟩
  rw [replacement, lookup_zip_eq_getElem? hparameters hlength hsome, hother, Option.getD_some]

/-- What is no parameter is not renamed. -/
theorem replacement_of_not_mem {name : String} (hname : name ∉ parameters) :
    replacement parameters names name = name := by
  rw [replacement, lookup_zip_eq_none hname, Option.getD_none]

/-- In any other function an expression is lowered to the same. -/
theorem lower_matches (e : Expr) (hpoint : point.map InsertPoint.function ≠ some k) :
    Matches k parameters names point e.lower e.lower := by
  induction e generalizing point with
  | number x => exact Matches.pure _
  | binary op lhs rhs ihl ihr =>
    exact (ihl hpoint).bind fun _ => (ihr hpoint).bind fun _ => operation_matches op _ _
  | define name value ih => exact (ih hpoint).bind fun _ => define_matches name _
  | lambda locals body ih =>
    exact lambda_matches locals fun id hid => ih fun heq => hid (Option.some.inj heq)
  | identifier name =>
    exact resolve_matches (fun _ _ h => h.resolve_eq hpoint name) fun _ _ _ _ => rfl

/-- In the function with the parameters, an expression and the one with other names for these are
lowered to the same, if the other names are new to it. -/
theorem lower_renameParameters_matches {e : Expr} (hparameters : parameters.Nodup)
    (hnames : names.Nodup) (hlength : names.length = parameters.length)
    (hfresh : ∀ name ∈ names, name ∉ e.names) (block : Nat) :
    Matches k parameters names (some ⟨k, block⟩) e.lower
      (e.renameParameters (replacement parameters names)).lower := by
  induction e with
  | number x => exact Matches.pure _
  | binary op lhs rhs ihl ihr =>
    have hl := ihl fun name hname hmem => hfresh name hname (List.mem_append_left _ hmem)
    have hr := ihr fun name hname hmem => hfresh name hname (List.mem_append_right _ hmem)
    exact hl.bind fun _ => hr.bind fun _ => operation_matches op _ _
  | define name value ih =>
    have hvalue := ih fun other hother hmem => hfresh other hother (List.mem_cons_of_mem _ hmem)
    exact hvalue.bind fun _ => define_matches name _
  | lambda locals body ih =>
    exact lambda_matches locals fun id hid =>
      lower_matches body fun heq => hid (Option.some.inj heq)
  | identifier name =>
    by_cases hmem : name ∈ parameters
    · obtain ⟨index, hname, hother⟩ := exists_replacement hparameters hlength hmem
      have hfound := fun (m n : Module) (h : m.SameBut k parameters names n) =>
        h.resolve_parameter hparameters hnames hname hother
      refine resolve_matches (fun m n h => ?_) fun m n h hnone => ?_
      · exact (hfound m n h).1.trans (hfound m n h).2.symm
      · cases (hfound m n h).1.symm.trans hnone
    · rw [renameParameters, replacement_of_not_mem hmem]
      have hnew : name ∉ names := fun hname => hfresh name hname List.mem_cons_self
      exact resolve_matches (fun m n h => h.resolve_global hmem hnew) fun _ _ _ _ => rfl

end Expr

open LambdaArith.Expr

/-- The parameters of a lambda can be renamed, to names that differ from each other and are nowhere
in it: the lambda is lowered to the same value or fails with the same error, at the same point and
with the same events. The modules after it have the same globals and symbols, and the same functions
but for the names inside the new one, so that all of them do the same. This is so on every
builder. -/
theorem parameter_names_are_free {body : Expr} (hparameters : parameters.Nodup)
    (hnames : names.Nodup) (hlength : names.length = parameters.length)
    (hfresh : ∀ name ∈ names, name ∉ (lambda parameters body).names) (b : Builder) :
    let written := (lambda parameters body).lower b
    let renamed := (lambda names (body.renameParameters (replacement parameters names))).lower b
    written.1 = renamed.1 ∧ written.2.point = renamed.2.point ∧
      written.2.events = renamed.2.events ∧
      written.2.module.SameBut b.module.functions.length parameters names renamed.2.module ∧
      ∀ id : Nat, (written.2.module.functions[id]?).map Func.actions =
        (renamed.2.module.functions[id]?).map Func.actions := by
  intro written renamed
  have hfresh' : ∀ name ∈ names, name ∉ body.names := fun name hname hmem =>
    hfresh name hname (List.mem_append_right _ hmem)
  have henter : Builder.SameBut b.module.functions.length parameters names
      (some ⟨b.module.functions.length, 0⟩) (b.enter parameters) (b.enter names) :=
    ⟨.of_openFunction b.module hparameters hnames, rfl, rfl, rfl⟩
  obtain ⟨hresult, hafter⟩ := Build.body_matches (.function b.module.functions.length)
    (lower_renameParameters_matches hparameters hnames hlength hfresh' 0) _ _ henter
  have hwritten := Build.lambda_apply (firstRepeated_nil_eq_none_iff.mpr hparameters) body.lower b
  have hrenamed := Build.lambda_apply (firstRepeated_nil_eq_none_iff.mpr hnames)
    (body.renameParameters (replacement parameters names)).lower b
  simp only [written, renamed, lower, hwritten, hrenamed]
  exact ⟨hresult, trivial, hafter.events_eq, hafter.module_same, hafter.module_same.actions_eq⟩

/-- A parameter takes the name that a sum would have got, while its body makes a global and looks
one up. -/
theorem parameter_names_are_free_addOp :
    let b : Builder := ⟨Module.ofRequests "m" [.call (.compile "(define k 3)")], none, []⟩
    let body := Expr.binary .add (.binary .add (.identifier "x") (.identifier "k"))
      (.binary .mul (.define "y" (.number 2)) (.identifier "y"))
    let written := (lambda ["x"] body).lower b
    let renamed := (lambda ["addOp"] (body.renameParameters (replacement ["x"] ["addOp"]))).lower b
    renamed.1 = .ok (.function 0) ∧ written.2.module.SameBut 0 ["x"] ["addOp"] renamed.2.module ∧
      (written.2.module.instructions 0).map Instruction.name =
        [some "addOp", some "mulOp", some "addOp1", none] ∧
      (renamed.2.module.instructions 0).map Instruction.name =
        [some "addOp1", some "mulOp", some "addOp2", none] := by
  intro b body written renamed
  obtain ⟨_, _, _, hsame, _⟩ := @parameter_names_are_free ["x"] ["addOp"] body (by decide)
    (by decide) rfl (by decide) b
  have hfunctions : b.module.functions.length = 0 := by decide +kernel
  rw [hfunctions] at hsame
  exact ⟨by decide +kernel, hsame, by decide +kernel, by decide +kernel⟩

end LambdaArith
