import LambdaArith.Proofs.Listings

/-!
# What lowering does not touch

Lowering an expression comes back to the insertion point where it has started, also when it fails
somewhere inside. Until then it has only added to the module: globals and functions behind those
that are there, and instructions at the insertion point. A session has none, so what it has written
once is written in the same way ever after.
-/

namespace LambdaArith

namespace Build

variable {α : Type} {point : Option InsertPoint}

/-- Work that ends at the insertion point where it has started, whether it fails or not. -/
def Returns (point : Option InsertPoint) (work : Build α) : Prop :=
  Keeps (fun b => b.point = point) (fun _ => True) work

/-- Applying an operation of the backend does not move the insertion point. -/
theorem returns_apply (operation : Module → Except BackendError (α × Module)) :
    Returns point (apply operation) :=
  Keeps.apply fun _ _ _ hb _ => ⟨hb, trivial⟩

/-- What is done at the insertion point after an event returns if it does so there. -/
theorem returns_atPoint (instruction : String) (event : InsertPoint → Event)
    {next : InsertPoint → Build α} (hnext : ∀ p, Returns point (next p)) :
    Returns point
      (requirePoint instruction >>= fun p => record (event p) >>= fun _ => next p) := by
  refine Keeps.bind (Q := fun _ => True) (Keeps.get.bind fun b _ => ?_) fun p _ => ?_
  · split
    · exact Keeps.fail _
    · exact Keeps.pure trivial
  · exact (Keeps.record _ fun _ hb => hb).bind fun _ _ => hnext p

/-- Applying an operator does not move the insertion point. -/
theorem returns_operation (op : Operator) (lhs rhs : Value) :
    Returns point (operation op lhs rhs) := by
  unfold operation
  split
  · split
    · exact Keeps.pure trivial
    · exact returns_atPoint _ _ fun _ => returns_apply _
  · exact Keeps.fail _

/-- Giving a name to a value does not move the insertion point. -/
theorem returns_define (name : String) (value : Value) : Returns point (define name value) := by
  have hrecorded : ∀ (event : Event) (result : Value),
      Returns point (record event >>= fun _ => pure result) := fun event _ =>
    (Keeps.record event fun _ hb => hb).bind fun _ _ => Keeps.pure trivial
  refine Keeps.get.bind fun b _ => ?_
  split
  · exact (returns_apply _).bind fun _ _ => hrecorded _ _
  · exact (returns_apply _).bind fun _ _ => hrecorded _ _

/-- Making a function comes back from it, whatever its body does to the insertion point. -/
theorem returns_lambda (parameters : List String) (body : Build Value) :
    Returns point (lambda parameters body) := by
  unfold lambda
  split
  · exact Keeps.fail _
  · refine (returns_apply _).bind fun function _ => (returns_apply _).bind fun entry _ => ?_
    exact fun b hb => ⟨hb, fun _ _ => trivial⟩

/-- Looking up an identifier does not move the insertion point. -/
theorem returns_resolve (name : String) : Returns point (resolve name) := by
  refine Keeps.get.bind fun b _ => ?_
  split
  · exact Keeps.fail _
  · exact Keeps.pure trivial

end Build

open Build in
/-- Lowering an expression comes back to the insertion point, also when it fails. -/
theorem Expr.returns_lower (e : Expr) (point : Option InsertPoint) : Returns point e.lower := by
  induction e with
  | number x => exact Keeps.pure trivial
  | binary op lhs rhs ihl ihr =>
    exact ihl.bind fun left _ => ihr.bind fun right _ => returns_operation op left right
  | define name value ih => exact ih.bind fun result _ => returns_define name result
  | lambda parameters body => exact returns_lambda parameters body.lower
  | identifier name => exact returns_resolve name

/-- A block with more instructions at its end, given by their places. -/
def Block.extend (block : Block) (places : List Nat) : Block :=
  { block with instructions := block.instructions ++ places }

/-- A function in which nothing has changed but that there are more instructions, all of them at the
end of one block. If no block is given, there are no more. -/
structure Func.ExtendedAt (block : Option Nat) (f g : Func) : Prop where
  name_eq : g.name = f.name
  parameters_eq : g.parameters = f.parameters
  exists_added : ∃ added, g.instructions = f.instructions ++ added ∧
    (block = none → added = []) ∧
    ∀ index : Nat, g.blocks[index]? = (f.blocks[index]?).map fun b =>
      if block = some index then b.extend (List.range' f.instructions.length added.length) else b

/-- A function that has grown at a block has been extended there. -/
theorem Func.Grown.extendedAt {block : Option Nat} {f g : Func} (h : f.Grown block g) :
    f.ExtendedAt block g := by
  induction h with
  | refl =>
    refine ⟨rfl, rfl, [], (List.append_nil _).symm, fun _ => rfl, fun index => ?_⟩
    simp [Block.extend]
  | @append g k wanted action _ hblock ih =>
    obtain ⟨hname, hparameters, added, hinstructions, _, hblocks⟩ := ih
    subst hblock
    obtain ⟨last, hlast⟩ : ∃ last, (g.append k wanted action).instructions =
        g.instructions ++ [last] := ⟨_, rfl⟩
    refine ⟨hname, hparameters, added ++ [last], ?_, nofun, fun index => ?_⟩
    · rw [hlast, hinstructions, List.append_assoc]
    · have hmodified : (g.append k wanted action).blocks[index]? =
          (g.blocks[index]?).map fun b =>
            if k = index then b.extend [g.instructions.length] else b := by
        simp only [Func.append, List.getElem?_modify]
        split <;> rfl
      rw [hmodified, hblocks, Option.map_map]
      refine congrArg (Option.map · _) (funext fun b => ?_)
      simp only [Function.comp, Option.some.injEq]
      split
      · rw [hinstructions, List.length_append, List.length_append, ← List.range'_append_1]
        simp only [Block.extend, List.append_assoc, List.length_singleton, List.range'_one]
      · rfl

namespace Module

/-- A module in which nothing has changed but that there are more globals and functions behind those
that have been there, more names for the new ones, and more instructions at the insertion point. -/
structure AddedTo (before : Module) (point : Option InsertPoint) (after : Module) : Prop where
  name_eq : after.name = before.name
  target_eq : after.target = before.target
  /-- Globals keep their places, names and initializers. -/
  globals_prefix : before.globals <+: after.globals
  /-- Functions keep their places, and grow only at the insertion point. -/
  functions_extended : ∀ (id : Nat) (f : Func), before.functions[id]? = some f →
    ∃ g, after.functions[id]? = some g ∧ f.ExtendedAt (InsertPoint.blockIn point id) g
  /-- Names stay bound to what they have been bound to. -/
  lookup?_eq : ∀ name symbol, before.lookup? name = some symbol →
    after.lookup? name = some symbol
  /-- Other names are bound to what is new. -/
  lookup?_new : ∀ name symbol, before.lookup? name = none → after.lookup? name = some symbol →
    before.checkpoint.covers symbol = false

/-- What is in the frame has only been added to. -/
theorem Frame.addedTo {before after : Module} {point : Option InsertPoint}
    (h : before.Frame point after) (hbefore : before.Consistent) : before.AddedTo point after where
  name_eq := h.name_eq
  target_eq := h.target_eq
  globals_prefix := h.globals_prefix
  functions_extended := fun id f hf => by
    obtain ⟨g, hg, hgrown⟩ := h.function_grown id f hf
    exact ⟨g, hg, hgrown.extendedAt⟩
  lookup?_eq := fun name symbol hold =>
    (h.lookup?_iff name symbol (hbefore.covers_of_lookup? hold)).mpr hold
  lookup?_new := fun name symbol hfree hnew => by
    by_contra hcovers
    rw [Bool.not_eq_false] at hcovers
    have hold := (h.lookup?_iff name symbol hcovers).mp hnew
    rw [hfree] at hold
    cases hold

/-- The texts of the globals, in order. -/
def globalTexts (m : Module) : List String :=
  m.globals.map globalLine

/-- The texts of the functions, in order. -/
def functionTexts (m : Module) : List (List String) :=
  m.functions.zipIdx.map fun entry => m.functionLines entry.2 entry.1

namespace Extends

variable {base m : Module}

/-- An old function has the same label in an extension. -/
theorem functionLabel_eq (h : base.Extends m) {id : Nat} (hid : id < base.functions.length) :
    m.functionLabel id = base.functionLabel id := by
  obtain ⟨added, hadded⟩ := h.frame.functions_prefix
  simp only [functionLabel, ← hadded, List.getElem?_append_left hid,
    List.take_append_of_le_length (Nat.le_of_lt hid)]

/-- Globals are written in the same way in an extension. -/
theorem globalTexts_prefix (h : base.Extends m) : base.globalTexts <+: m.globalTexts :=
  h.frame.globals_prefix.map globalLine

/-- Functions are written in the same way in an extension, if they are complete. -/
theorem functionTexts_prefix (h : base.Extends m) (hbase : base.Consistent)
    (hcomplete : base.Complete) : base.functionTexts <+: m.functionTexts := by
  have hold : base.functionTexts =
      base.functions.zipIdx.map fun entry => m.functionLines entry.2 entry.1 := by
    refine List.map_congr_left fun entry hentry => ?_
    have hf := List.mem_zipIdx_iff_getElem?.mp hentry
    have hlabel := h.functionLabel_eq (List.getElem?_eq_some_iff.mp hf).1
    rw [functionLines_eq_as, functionLines_eq_as, hlabel,
      h.functionLinesAs_eq hbase hcomplete (List.mem_of_getElem? hf)]
  obtain ⟨added, hadded⟩ := h.frame.functions_prefix
  rw [hold, functionTexts, ← hadded, List.zipIdx_append, List.map_append]
  exact List.prefix_append _ _

/-- Calls of a session leave an extension. -/
theorem answers (h : base.Extends m) (calls : List Call) : base.Extends (m.answers calls).2 := by
  induction calls generalizing m with
  | nil => exact h
  | cons call rest ih => exact ih (h.answer call)

end Extends

/-- Whatever is lowered, into whatever module and at whatever place: the insertion point is where it
has been, and the module has only been added to, whether that succeeds or fails. In a session, what
has been compiled is written in the same way after all later calls. -/
theorem lowering_only_adds (name : String) :
    (∀ (requests : List Request) (point : Option InsertPoint) (events : List Event) (e : Expr),
      let before := ofRequests name requests
      let after := (e.lower ⟨before, point, events⟩).2
      after.point = point ∧ before.AddedTo point after.module) ∧
    ∀ (target : Option Target) (earlier later : List Call),
      let opened : Module := { empty name with target := target }
      let before := (opened.answers earlier).2
      let after := (before.answers later).2
      before.globalTexts <+: after.globalTexts ∧ before.functionTexts <+: after.functionTexts := by
  constructor
  · intro requests point events e before after
    have hm : before.Consistent := consistent_invariant.ofRequests consistent_empty name requests
    have hframed := (e.lower_keeps_framed ⟨before, point, events⟩ (Builder.framed_self hm)).1
    exact ⟨(e.returns_lower point _ rfl).1, hframed.frame.addedTo hm⟩
  · intro target earlier later opened before after
    have hopened : opened.Consistent := (consistent_empty name).of_same_names rfl fun _ => rfl
    have hempty : ({ empty name with target := target } : Module).Complete := fun _ _ => nofun
    have hcomplete : before.Complete := hempty.answers hopened earlier
    have hm : before.Consistent := hopened.answers earlier
    have hextends := (Extends.refl hm).answers later
    exact ⟨hextends.globalTexts_prefix, hextends.functionTexts_prefix hm hcomplete⟩

end Module

end LambdaArith
