import LambdaArith.Proofs.Derivation
import LambdaArith.Proofs.Shape
import LambdaArith.Proofs.Tracking

/-!
# Lowering into two modules

An expression is lowered into a module and into an extension of it. As long as the extension has not
changed what the names in the expression stand for, both fail with the same error or both succeed,
and what has been added to the one has been added to the other. This is shown for each kind of step;
lowering is made of those.
-/

namespace LambdaArith

/-- Builders of modules that track each other, at the same place of the same new function. -/
structure Builder.Tracks (base middle : Module) (b c : Builder) : Prop where
  module_tracks : base.Tracks middle b.module c.module
  point_eq : c.point = b.point.map (InsertPoint.renumber (base.renumbering middle))
  precedes : base.checkpoint.Precedes b.point

/-- What is a constant is one by other places. -/
@[simp] theorem Value.isConstant_renumber {r : Renumbering} (v : Value) :
    (v.renumber r).isConstant = v.isConstant := by
  cases v <;> rfl

namespace Build

open LambdaArith.Module

variable {α β : Type} {base middle : Module} {Q : α → α → Prop} {R : β → β → Prop}

/-- Two pieces of work, done to builders that track each other, have results that agree, and the
builders track each other afterwards. -/
def Track (base middle : Module) (Q : α → α → Prop) (work other : Build α) : Prop :=
  ∀ b c, Builder.Tracks base middle b c →
    Agree Q (work b).1 (other c).1 ∧ Builder.Tracks base middle (work b).2 (other c).2

/-- Work without any step gives what it is given. -/
theorem Track.pure {x y : α} (h : Q x y) : Track base middle Q (Pure.pure x) (Pure.pure y) :=
  fun _ _ hbc => ⟨h, hbc⟩

/-- Failing with the same error agrees. -/
theorem Track.fail (error : LoweringError) :
    Track base middle Q (Build.fail error) (Build.fail error) :=
  fun _ _ hbc => ⟨rfl, hbc⟩

/-- Work after other work agrees if both do. -/
theorem Track.bind {work other : Build α} {next next' : α → Build β}
    (hwork : Track base middle Q work other)
    (hnext : ∀ x y, Q x y → Track base middle R (next x) (next' y)) :
    Track base middle R (work >>= next) (other >>= next') := by
  intro b c hbc
  obtain ⟨hresult, hafter⟩ := hwork b c hbc
  rw [bind_apply, bind_apply]
  revert hresult hafter
  rcases work b with ⟨result | x, after⟩ <;> rcases other c with ⟨result' | y, after'⟩
  · exact fun hresult hafter => ⟨hresult, hafter⟩
  · exact False.elim
  · exact False.elim
  · exact fun hresult hafter => hnext x y hresult _ _ hafter

/-- Work that depends on the builders agrees if it does for builders that track each other. -/
theorem Track.get_bind {next next' : Builder → Build β}
    (hnext : ∀ b c, Builder.Tracks base middle b c →
      Track base middle R (next b) (next' c)) :
    Track base middle R (Build.get >>= next) (Build.get >>= next') :=
  fun b c hbc => hnext b c hbc b c hbc

/-- Events do not matter. -/
theorem Track.record (event event' : Event) :
    Track base middle (fun _ _ => True) (Build.record event) (Build.record event') :=
  fun _ _ hbc => ⟨trivial, hbc.module_tracks, hbc.point_eq, hbc.precedes⟩

/-- Operations of the backend agree if their answers track each other, and they leave extensions of
both modules. -/
theorem Track.apply {operation other : Module → Except BackendError (α × Module)}
    (hanswers : ∀ m n, base.Tracks middle m n →
      TrackingAnswers base middle Q (operation m) (other n))
    (hleft : ∀ m x m', base.Extends m → operation m = .ok (x, m') → base.Extends m')
    (hright : ∀ n y n', middle.Extends n → other n = .ok (y, n') → middle.Extends n') :
    Track base middle Q (Build.apply operation) (Build.apply other) := by
  intro b c hbc
  have htracks := hbc.module_tracks
  have hanswers := hanswers _ _ htracks
  have hleft := hleft b.module
  have hright := hright c.module
  unfold Build.apply
  revert hanswers hleft hright
  rcases operation b.module with error | ⟨x, m⟩ <;> rcases other c.module with error' | ⟨y, n⟩
  · rintro ⟨⟩ _ _
    exact ⟨rfl, hbc⟩
  · exact False.elim
  · exact False.elim
  · rintro ⟨hvalues, hshifted⟩ hleft hright
    refine ⟨hvalues, ⟨?_, hbc.point_eq, hbc.precedes⟩⟩
    exact ⟨hshifted, htracks.consistent, htracks.middle_extends,
      hleft _ _ htracks.left_extends rfl, hright _ _ htracks.right_extends rfl⟩

/-- Working in a new function agrees if the work does. -/
theorem Track.within {work other : Build α} {p q : InsertPoint}
    (hp : PointTracks base middle p q) (hwork : Track base middle Q work other) :
    Track base middle Q (Build.within p work) (Build.within q other) := by
  intro b c hbc
  obtain ⟨hresult, hafter⟩ := hwork { b with point := some p } { c with point := some q }
    ⟨hbc.module_tracks, congrArg some hp.eq_renumber, fun _ hq => by cases hq; exact hp.le_function⟩
  exact ⟨hresult, hafter.module_tracks, hbc.point_eq, hbc.precedes⟩


/-- Asking for the insertion point finds the same one, by its new place. -/
theorem requirePoint_track (instruction : String) :
    Track base middle (PointTracks base middle) (requirePoint instruction)
      (requirePoint instruction) := by
  refine Track.get_bind fun b c hbc => ?_
  rw [hbc.point_eq]
  cases hpoint : b.point with
  | none => exact Track.fail _
  | some p => exact Track.pure ⟨rfl, hbc.precedes p hpoint⟩

/-- Adding an instruction to a new function. -/
theorem append_track {p q : InsertPoint} (hp : PointTracks base middle p q)
    (wanted : Option String) (action : Action) :
    Track base middle (ValueTracks base middle) (apply fun m => m.append p wanted action)
      (apply fun n => n.append q wanted (action.renumber (base.renumbering middle))) :=
  Track.apply (fun _ _ h => h.append hp wanted action)
    (fun _ _ _ h hok => h.append hp.le_function hok)
    (fun _ _ _ h hok => h.append hp.le_function_right hok)

/-- Applying an operator, unless it is to two constants, is adding an instruction. -/
theorem operation_eq_of_not_constant (op : Operator) {lhs rhs : Value}
    (h : ¬ (lhs.isConstant = true ∧ rhs.isConstant = true)) :
    operation op lhs rhs =
      if lhs.isNumeric && rhs.isNumeric then
        requirePoint op.resultName >>= fun p => record (.emittingOperation op p) >>= fun _ =>
          apply fun m => m.append p (some op.resultName) (.compute op lhs rhs)
      else fail (.backend .notANumber) := by
  unfold operation
  split
  · split
    · exact absurd ⟨rfl, rfl⟩ h
    · rfl
  · rfl

/-- Applying an operator to operands that correspond. -/
theorem operation_track (op : Operator) {lhs lhs' rhs rhs' : Value}
    (hl : ValueTracks base middle lhs lhs') (hr : ValueTracks base middle rhs rhs') :
    Track base middle (ValueTracks base middle) (operation op lhs rhs)
      (operation op lhs' rhs') := by
  obtain ⟨rfl, _⟩ := hl
  obtain ⟨rfl, _⟩ := hr
  -- Two constants never need an insertion point, so the builders may have none or any.
  by_cases hconstant : lhs.isConstant = true ∧ rhs.isConstant = true
  · obtain ⟨hx, hy⟩ := hconstant
    cases lhs <;> cases hx
    cases rhs <;> cases hy
    exact Track.pure ⟨rfl, nofun⟩
  · rw [operation_eq_of_not_constant op hconstant,
      operation_eq_of_not_constant op (by simpa using hconstant)]
    simp only [Value.isNumeric_renumber]
    split
    · refine (requirePoint_track _).bind fun p q hp => ?_
      refine (Track.record _ _).bind fun _ _ _ => ?_
      exact append_track hp _ (.compute op lhs rhs)
    · exact Track.fail _

/-- Returning values that correspond. -/
theorem ret_track {v w : Value} (h : ValueTracks base middle v w) :
    Track base middle (fun _ _ => True) (ret v) (ret w) := by
  obtain ⟨rfl, _⟩ := h
  unfold ret
  rw [Value.isNumeric_renumber]
  split
  · refine (requirePoint_track _).bind fun p q hp => ?_
    refine (Track.record _ _).bind fun _ _ _ => ?_
    exact (append_track hp none (.ret v)).bind fun _ _ _ => Track.pure trivial
  · exact Track.fail _

/-- Looking up a name that the extension has not changed. -/
theorem resolve_track {name : String} (hname : middle.lookup? name = base.lookup? name) :
    Track base middle (ValueTracks base middle) (resolve name) (resolve name) := by
  refine Track.get_bind fun b c hbc => ?_
  have hpoint : c.point.map InsertPoint.function =
      (b.point.map InsertPoint.function).map (base.renumbering middle).function := by
    rw [hbc.point_eq, Option.map_map, Option.map_map]
    rfl
  have hvalue := hbc.module_tracks.resolve_value hname (b.point.map InsertPoint.function)
  rw [← hpoint] at hvalue
  revert hvalue
  cases hfound : b.module.resolve (b.point.map InsertPoint.function) name with
  | none =>
    cases c.module.resolve (c.point.map InsertPoint.function) name with
    | none => exact fun _ => Track.fail _
    | some other => exact nofun
  | some resolution =>
    cases c.module.resolve (c.point.map InsertPoint.function) name with
    | none => exact nofun
    | some other =>
      intro hvalue
      refine Track.pure ⟨Option.some.inj hvalue, fun id hid => ?_⟩
      have hnumeric := isNumeric_of_resolve hfound
      rw [hid] at hnumeric
      cases hnumeric

/-- Naming a new function. -/
theorem setName_track {name : String} (hname : middle.lookup? name = base.lookup? name) {id : Nat}
    {w : Value} (h : ValueTracks base middle (.function id) w) :
    Track base middle (fun _ _ => True)
      (apply fun m => (m.setName (.function id) name).map fun m => ((), m))
      (apply fun n => (n.setName w name).map fun n => ((), n)) := by
  have hright := h.newIn_right
  obtain ⟨rfl, hleft⟩ := h
  have hextends : ∀ {base m m' : Module} {place : Nat} {x : Unit}, base.functions.length ≤ place →
      base.Extends m → ((m.setName (.function place) name).map fun m => ((), m)) = .ok (x, m') →
      base.Extends m' := fun hplace hm hok =>
    hm.setName (fun _ => not_covers_of_value_eq hplace) (setName_of_map hok)
  exact Track.apply (fun _ _ hmn => hmn.setName hname (hleft id rfl))
    (fun _ _ _ hm => hextends (hleft id rfl) hm) (fun _ _ _ hn => hextends (hright _ rfl) hn)

/-- Defining a name that the extension has not changed. -/
theorem define_track {name : String} (hname : middle.lookup? name = base.lookup? name)
    {v w : Value} (h : ValueTracks base middle v w) :
    Track base middle (ValueTracks base middle) (define name v) (define name w) := by
  refine Track.get_bind fun b c hbc => ?_
  have hsame : c.module.isFunction w = b.module.isFunction v := by
    rw [h.eq_renumber, hbc.module_tracks.isFunction_renumber]
  rw [hsame]
  split
  · rename_i hfunction
    cases v with
    | function id =>
      refine (setName_track hname h).bind fun _ _ _ => ?_
      exact (Track.record _ _).bind fun _ _ _ => Track.pure h
    | _ => cases hfunction
  · rw [h.eq_renumber]
    refine Track.bind (Q := ValueTracks base middle) ?_ fun x y hxy => ?_
    · exact Track.apply (fun _ _ hmn => hmn.addGlobal hname v)
        (fun _ _ _ hm hok => hm.addGlobal hok) (fun _ _ _ hn hok => hn.addGlobal hok)
    · exact (Track.record _ _).bind fun _ _ _ => Track.pure hxy

/-- Making a function, if the work for its body agrees. -/
theorem lambda_track (parameters : List String) {body other : Build Value}
    (hbody : Track base middle (ValueTracks base middle) body other) :
    Track base middle (ValueTracks base middle) (lambda parameters body)
      (lambda parameters other) := by
  unfold lambda
  split
  · exact Track.fail _
  · refine Track.bind (Q := fun i j => ValueTracks base middle (.function i) (.function j)) ?_
      fun i j hij => ?_
    · refine Track.apply (fun _ _ h => h.addFunction parameters) ?_ ?_
      · rintro _ _ _ h ⟨⟩
        exact h.addFunction parameters
      · rintro _ _ _ h ⟨⟩
        exact h.addFunction parameters
    · have hleft := hij.newIn i rfl
      have hright := hij.newIn_right j rfl
      have hplace : j = (base.renumbering middle).function i := Value.function.inj hij.eq_renumber
      refine Track.bind (Q := PointTracks base middle) ?_ fun p q hp => ?_
      · refine Track.apply (fun _ _ h => hplace ▸ h.appendBlock hleft "entry") ?_ ?_
        · exact fun _ _ _ h hok => h.appendBlock hleft hok
        · exact fun _ _ _ h hok => h.appendBlock hright hok
      · refine Track.within hp (hbody.bind fun x y hxy => ?_)
        exact (ret_track hxy).bind fun _ _ _ => Track.pure hij

end Build

namespace Expr

open Build LambdaArith.Module

variable {base middle : Module}

/-- Lowering an expression into a module and into an extension that has not changed its names. -/
theorem lower_track {e : Expr} (h : ∀ name ∈ e.names, middle.lookup? name = base.lookup? name) :
    Track base middle (ValueTracks base middle) e.lower e.lower := by
  induction e with
  | number x => exact Track.pure ⟨rfl, nofun⟩
  | binary op lhs rhs ihl ihr =>
    rw [names, List.forall_mem_append] at h
    exact (ihl h.1).bind fun _ _ hl => (ihr h.2).bind fun _ _ hr => operation_track op hl hr
  | define name value ih =>
    rw [names, List.forall_mem_cons] at h
    exact (ih h.2).bind fun _ _ hvalue => define_track h.1 hvalue
  | lambda parameters body ih =>
    rw [names, List.forall_mem_append] at h
    exact lambda_track parameters (ih h.2)
  | identifier name => exact resolve_track (h name (List.mem_singleton.mpr rfl))

end Expr

/-- Builders outside of functions, of a module and of an extension of it, track each other. -/
theorem Builder.tracks_start {b c : Builder} (hb : b.module.Consistent)
    (h : b.module.Extends c.module) (hbpoint : b.point = none) (hcpoint : c.point = none) :
    Builder.Tracks b.module c.module b c where
  module_tracks := .start hb h
  point_eq := by rw [hbpoint, hcpoint, Option.map_none]
  precedes := by rw [hbpoint]; exact nofun

namespace Lowers

variable {base middle : Module} {b c after : Builder} {e : Expr} {value : Value}

/-- What is lowered into a module is lowered into an extension that has not changed its names. -/
theorem exists_track (h : Lowers b e value after) (hbc : Builder.Tracks base middle b c)
    (hnames : ∀ name ∈ e.names, middle.lookup? name = base.lookup? name) :
    ∃ w after', Lowers c e w after' ∧ Builder.Tracks base middle after after' := by
  obtain ⟨hresults, hafter⟩ := Expr.lower_track hnames b c hbc
  rw [h.lower_eq] at hresults hafter
  obtain ⟨w, hw, _⟩ := hresults.exists_ok rfl
  exact ⟨w, _, .of_lower (Prod.ext hw rfl), hafter⟩

/-- What is lowered into an extension that has not changed its names is lowered into the module
itself. -/
theorem exists_track_left (h : Lowers c e value after) (hbc : Builder.Tracks base middle b c)
    (hnames : ∀ name ∈ e.names, middle.lookup? name = base.lookup? name) :
    ∃ v before, Lowers b e v before ∧ Builder.Tracks base middle before after := by
  obtain ⟨hresults, hafter⟩ := Expr.lower_track hnames b c hbc
  rw [h.lower_eq] at hresults hafter
  obtain ⟨v, hv, _⟩ := hresults.exists_ok_left rfl
  exact ⟨v, _, .of_lower (Prod.ext hv rfl), hafter⟩

end Lowers

end LambdaArith
