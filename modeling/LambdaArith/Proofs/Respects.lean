import LambdaArith.Proofs.Alike
import LambdaArith.Proofs.Build

/-!
# Work on modules that cannot be told apart

Work on a builder never asks which names are known, nor what has happened before, so it has the
same result on alike modules and leaves them alike. This is shown for each kind of step; lowering is
made of those.
-/

namespace LambdaArith

/-- Builders at the same place of alike modules. -/
structure Builder.Alike (b c : Builder) : Prop where
  module_alike : b.module.Alike c.module
  point_eq : b.point = c.point

namespace Build

variable {α β : Type}

/-- Work has the same result on alike builders, and leaves them alike. -/
def Respects (work : Build α) : Prop :=
  ∀ b c, b.Alike c → (work b).1 = (work c).1 ∧ (work b).2.Alike (work c).2

/-- Work without any step respects likeness. -/
theorem Respects.pure (a : α) : Respects (Pure.pure a) :=
  fun _ _ h => ⟨rfl, h⟩

/-- Failing respects likeness. -/
theorem Respects.fail (error : LoweringError) : Respects (Build.fail error : Build α) :=
  fun _ _ h => ⟨rfl, h⟩

/-- Work after other work respects likeness if both do. -/
theorem Respects.bind {work : Build α} {next : α → Build β} (hwork : Respects work)
    (hnext : ∀ a, Respects (next a)) : Respects (work >>= next) := by
  intro b c h
  obtain ⟨hresult, hafter⟩ := hwork b c h
  rw [bind_apply, bind_apply]
  revert hresult hafter
  rcases work b with ⟨result | error, after⟩ <;> rcases work c with ⟨result' | error', after'⟩
  · rintro ⟨⟩ hafter
    exact ⟨rfl, hafter⟩
  · rintro ⟨⟩
  · rintro ⟨⟩
  · rintro ⟨⟩ hafter
    exact hnext _ _ _ hafter

/-- Work that depends on the builder respects likeness if it is the same work for alike
builders. -/
theorem Respects.get_bind {next : Builder → Build β} (hsame : ∀ b c, b.Alike c → next b = next c)
    (hnext : ∀ b, Respects (next b)) : Respects (Build.get >>= next) := by
  intro b c h
  have hwork : ∀ d, (Build.get >>= next) d = next d d := fun _ => rfl
  rw [hwork, hwork, hsame b c h]
  exact hnext c b c h

/-- Recording an event respects likeness. -/
theorem Respects.record (event : Event) : Respects (Build.record event) :=
  fun _ _ h => ⟨rfl, h.module_alike, h.point_eq⟩

/-- An operation of the backend respects likeness if its answers are alike. -/
theorem Respects.apply {operation : Module → Except BackendError (α × Module)}
    (h : ∀ m n, m.Alike n → Module.AlikeAnswers (operation m) (operation n)) :
    Respects (Build.apply operation) := by
  intro b c hbc
  have hanswers := h _ _ hbc.module_alike
  unfold Build.apply
  revert hanswers
  rcases operation b.module with error | ⟨a, m⟩ <;>
    rcases operation c.module with error' | ⟨a', m'⟩
  · rintro ⟨⟩
    exact ⟨rfl, hbc⟩
  · rintro ⟨⟩
  · rintro ⟨⟩
  · rintro ⟨rfl, hm⟩
    exact ⟨rfl, hm, hbc.point_eq⟩

/-- Working at another insertion point respects likeness. -/
theorem Respects.within {work : Build α} (hwork : Respects work) (entry : InsertPoint) :
    Respects (Build.within entry work) := by
  intro b c h
  obtain ⟨hresult, hafter⟩ := hwork { b with point := some entry } { c with point := some entry }
    ⟨h.module_alike, rfl⟩
  exact ⟨hresult, hafter.module_alike, h.point_eq⟩

/-- Asking for the insertion point respects likeness. -/
theorem requirePoint_respects (instruction : String) : Respects (requirePoint instruction) := by
  refine Respects.get_bind (fun b c h => by rw [h.point_eq]) fun b => ?_
  split
  · exact Respects.fail _
  · exact Respects.pure _

/-- Applying an operator respects likeness. -/
theorem operation_respects (op : Operator) (lhs rhs : Value) : Respects (operation op lhs rhs) := by
  unfold operation
  split
  · split
    · exact Respects.pure _
    · refine (requirePoint_respects _).bind fun point => (Respects.record _).bind fun _ => ?_
      exact Respects.apply fun m n h => h.append point _ _
  · exact Respects.fail _

/-- Returning from a function respects likeness. -/
theorem ret_respects (value : Value) : Respects (ret value) := by
  unfold ret
  split
  · refine (requirePoint_respects _).bind fun point => (Respects.record _).bind fun _ => ?_
    exact (Respects.apply fun m n h => h.append point _ _).bind fun _ => Respects.pure _
  · exact Respects.fail _

/-- Resolving a name respects likeness. -/
theorem resolve_respects (name : String) : Respects (resolve name) := by
  refine Respects.get_bind ?_ fun b => ?_
  · intro b c h
    rw [h.point_eq, h.module_alike.resolve_eq]
  · split
    · exact Respects.fail _
    · exact Respects.pure _

/-- Defining a name respects likeness. -/
theorem define_respects (name : String) (value : Value) : Respects (define name value) := by
  refine Respects.get_bind ?_ fun b => ?_
  · intro b c h
    rw [h.module_alike.isFunction_eq]
  · split
    · refine (Respects.apply fun m n h => h.setName value name).bind fun _ => ?_
      exact (Respects.record _).bind fun _ => Respects.pure _
    · refine (Respects.apply fun m n h => h.addGlobal name value).bind fun _ => ?_
      exact (Respects.record _).bind fun _ => Respects.pure _

/-- Making a function respects likeness, if the work for its body does. -/
theorem lambda_respects (parameters : List String) {body : Build Value} (hbody : Respects body) :
    Respects (lambda parameters body) := by
  unfold lambda
  split
  · exact Respects.fail _
  · refine (Respects.apply fun m n h => h.addFunction parameters).bind fun function => ?_
    refine (Respects.apply fun m n h => h.appendBlock function "entry").bind fun entry => ?_
    refine Respects.within (hbody.bind fun result => ?_) entry
    exact (ret_respects result).bind fun _ => Respects.pure _

end Build

namespace Expr

open Build

/-- Lowering an expression respects likeness. -/
theorem lower_respects (e : Expr) : Respects e.lower := by
  induction e with
  | number x => exact Respects.pure _
  | binary op lhs rhs ihl ihr =>
    exact ihl.bind fun left => ihr.bind fun right => operation_respects op left right
  | define name value ih => exact ih.bind fun x => define_respects name x
  | lambda parameters body ih => exact lambda_respects parameters ih
  | identifier name => exact resolve_respects name

/-- Lowering a program respects likeness. -/
theorem lowerEach_respects (exprs : List Expr) : Respects (lowerEach exprs) := by
  induction exprs with
  | nil => exact Respects.pure _
  | cons e rest ih =>
    have htop : Respects e.lowerTopLevel := by
      unfold lowerTopLevel
      split
      · exact e.lower_respects
      · exact (lambda [] e).lower_respects
    exact htop.bind fun _ => ih.bind fun _ => Respects.pure _

end Expr

end LambdaArith
