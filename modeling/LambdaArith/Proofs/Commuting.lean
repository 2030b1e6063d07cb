import LambdaArith.Proofs.DefinedNames
import LambdaArith.Proofs.Listings
import LambdaArith.Proofs.Namespace
import LambdaArith.Proofs.TrackedLowering

/-!
# Independent expressions can be exchanged

Two expressions are lowered into a module one after the other. If neither defines a name that is in
the other, they can be lowered in the other order as well: what each of them adds does not depend on
the other, but for the places. The modules that one gets are the same up to the order of what is in
them and the numbers of functions without a name.
-/

namespace LambdaArith

namespace Module

/-- The double that a name stands for, if it is the name of a global. -/
def startValue? (m : Module) (name : String) : Option Float :=
  match m.lookup? name with
  | some (.global id) => m.initializer? id
  | _ => none

/-- The modules are the same up to the order of their globals and functions and the numbers of
functions without a name. -/
structure SameUpToOrder (m n : Module) : Prop where
  name_eq : m.name = n.name
  target_eq : m.target = n.target
  globals_perm : m.globals.Perm n.globals
  /-- The functions have the same names and texts. -/
  listings_perm : m.listings.Perm n.listings
  isSome_global?_eq : ∀ name, (m.global? name).isSome = (n.global? name).isSome
  isSome_function?_eq : ∀ name, (m.function? name).isSome = (n.function? name).isSome
  startValue?_eq : ∀ name, m.startValue? name = n.startValue? name

variable {m n : Module} {name : String}

/-- A name stands for a global exactly if some global has it. -/
theorem Consistent.isSome_global?_iff (hm : m.Consistent) :
    (m.global? name).isSome = true ↔ name ∈ m.globals.map Global.name := by
  rw [Option.isSome_iff_exists, List.mem_map]
  constructor
  · rintro ⟨value, hvalue⟩
    obtain ⟨id, hid, _⟩ := Module.global?_eq_some_iff.mp hvalue
    obtain ⟨g, hg, hname⟩ := Option.map_eq_some_iff.mp (hm.valueName?_eq_some hid)
    exact ⟨g, List.mem_of_getElem? hg, hname⟩
  · rintro ⟨g, hg, rfl⟩
    obtain ⟨id, hid⟩ := List.mem_iff_getElem?.mp hg
    have hname : m.valueName? (Symbol.global id).value = some g.name :=
      congrArg (Option.map Global.name) hid
    exact ⟨_, Module.global?_eq_some_iff.mpr ⟨id, hm.lookup?_eq_some hname, rfl⟩⟩

/-- A name stands for a double exactly if some global has both. -/
theorem Consistent.startValue?_eq_some_iff (hm : m.Consistent) {x : Float} :
    m.startValue? name = some x ↔ ⟨name, x⟩ ∈ m.globals := by
  constructor
  · intro h
    unfold startValue? at h
    split at h
    · rename_i id hid
      obtain ⟨g, hg, rfl⟩ := Option.map_eq_some_iff.mp h
      obtain ⟨g', hg', rfl⟩ := Option.map_eq_some_iff.mp (hm.valueName?_eq_some hid)
      rw [hg, Option.some.injEq] at hg'
      exact hg' ▸ List.mem_of_getElem? hg
    · cases h
  · intro h
    obtain ⟨id, hid⟩ := List.mem_iff_getElem?.mp h
    have hname : m.valueName? (Symbol.global id).value = some name :=
      congrArg (Option.map Global.name) hid
    have hinitial : m.initializer? id = some x := congrArg (Option.map Global.initializer) hid
    unfold startValue?
    rw [hm.lookup?_eq_some hname]
    exact hinitial

/-- A name stands for a function exactly if one is listed with it. -/
theorem Consistent.isSome_function?_iff (hm : m.Consistent) :
    (m.function? name).isSome = true ↔ some name ∈ m.listings.map Prod.fst := by
  have hnames : m.listings.map Prod.fst = m.functions.map Func.name := by
    rw [listings_eq, List.map_map]
    rfl
  rw [hnames, Option.isSome_iff_exists, List.mem_map]
  constructor
  · rintro ⟨value, hvalue⟩
    obtain ⟨id, hid, _⟩ := Module.function?_eq_some_iff.mp hvalue
    obtain ⟨f, hf, hname⟩ := Option.bind_eq_some_iff.mp (hm.valueName?_eq_some hid)
    exact ⟨f, List.mem_of_getElem? hf, hname⟩
  · rintro ⟨f, hf, hname⟩
    obtain ⟨id, hid⟩ := List.mem_iff_getElem?.mp hf
    have hvalue : m.valueName? (Symbol.function id).value = some name :=
      Option.bind_eq_some_iff.mpr ⟨f, hid, hname⟩
    exact ⟨_, Module.function?_eq_some_iff.mpr ⟨id, hm.lookup?_eq_some hvalue, rfl⟩⟩

/-- Names stand for the same in modules with the same globals and the same functions. -/
theorem SameUpToOrder.of_perm (hm : m.Consistent) (hn : n.Consistent) (hname : m.name = n.name)
    (htarget : m.target = n.target) (hglobals : m.globals.Perm n.globals)
    (hlistings : m.listings.Perm n.listings) : m.SameUpToOrder n where
  name_eq := hname
  target_eq := htarget
  globals_perm := hglobals
  listings_perm := hlistings
  isSome_global?_eq := fun name => by
    rw [Bool.eq_iff_iff, hm.isSome_global?_iff, hn.isSome_global?_iff]
    exact (hglobals.map Global.name).mem_iff
  isSome_function?_eq := fun name => by
    rw [Bool.eq_iff_iff, hm.isSome_function?_iff, hn.isSome_function?_iff]
    exact (hlistings.map Prod.fst).mem_iff
  startValue?_eq := fun name => by
    refine Option.ext fun x => ?_
    rw [hm.startValue?_eq_some_iff, hn.startValue?_eq_some_iff]
    exact hglobals.mem_iff

/-- What has been added to two extensions of a module in either order. -/
theorem Tracks.sameUpToOrder {base left right there back : Module}
    (hthere : base.Tracks left right there) (hback : base.Tracks right left back)
    (hbase : base.Complete) (hleft : left.Complete) (hright : right.Complete) :
    there.SameUpToOrder back := by
  have hbl := hthere.middle_extends
  have hbr := hback.middle_extends
  have hlt := hthere.right_extends
  have hrb := hback.right_extends
  refine .of_perm hlt.consistent hrb.consistent ?_ ?_ ?_ ?_
  · rw [hlt.frame.name_eq, hbl.frame.name_eq, hrb.frame.name_eq, hbr.frame.name_eq]
  · rw [hlt.frame.target_eq, hbl.frame.target_eq, hrb.frame.target_eq, hbr.frame.target_eq]
  · rw [hthere.globals_eq, hback.globals_eq]
    exact rebase_perm hbl.frame.globals_prefix hbr.frame.globals_prefix
  · rw [hthere.listings_eq_rebase hleft hright, hback.listings_eq_rebase hright hleft]
    exact rebase_perm (hbl.listings_prefix hthere.consistent hbase)
      (hbr.listings_prefix hthere.consistent hbase)

end Module

namespace Lowers

variable {b b₁ after : Builder} {e₁ e₂ : Expr} {value value₁ value₂ : Value}

/-- Lowering outside of functions extends the module. -/
theorem extends_module (h : Lowers b e₁ value after) (hpoint : b.point = none)
    (hm : b.module.Consistent) : b.module.Extends after.module := by
  have hframed := (h.framed (Builder.framed_self hm)).1
  rw [hpoint] at hframed
  exact .of_framed hframed

/-- Independent expressions that are lowered one after the other can be exchanged. What each of them
adds is the same with the other in front of it. -/
theorem exists_exchanged (h₁ : Lowers b e₁ value₁ b₁) (h₂ : Lowers b₁ e₂ value₂ after)
    (hind : e₁.Independent e₂) (hpoint : b.point = none) (hm : b.module.Consistent) :
    ∃ w₂ b₂ w₁ back, Lowers b e₂ w₂ b₂ ∧ Lowers b₂ e₁ w₁ back ∧
      b.module.Tracks b₁.module b₂.module after.module ∧
      b.module.Tracks b₂.module b₁.module back.module := by
  -- The second expression does not need the first,
  have hpoint₁ : b₁.point = none := h₁.point_eq.trans hpoint
  have hstart₁ := Builder.tracks_start hm (h₁.extends_module hpoint hm) hpoint hpoint₁
  obtain ⟨w₂, b₂, hfirst, hafter⟩ := h₂.exists_track_left hstart₁ fun name hname =>
    h₁.lookup?_eq hm fun hdefined => hind.left_defines name hdefined hname
  -- and the first does not mind the second.
  have hpoint₂ : b₂.point = none := hfirst.point_eq.trans hpoint
  have hstart₂ := Builder.tracks_start hm (hfirst.extends_module hpoint hm) hpoint hpoint₂
  obtain ⟨w₁, back, hsecond, hback⟩ := h₁.exists_track hstart₂ fun name hname =>
    hfirst.lookup?_eq hm fun hdefined => hind.right_defines name hdefined hname
  exact ⟨w₂, b₂, w₁, back, hfirst, hsecond, hafter.module_tracks, hback.module_tracks⟩

end Lowers

/-- Two expressions of a program are lowered one after the other. -/
theorem Expr.lowerEach_pair_eq_ok {e₁ e₂ : Expr} {b after : Builder} {values : List Value} :
    lowerEach [e₁, e₂] b = (.ok values, after) ↔
      ∃ value₁ b₁ value₂, values = [value₁, value₂] ∧ Lowers b e₁.topLevel value₁ b₁ ∧
        Lowers b₁ e₂.topLevel value₂ after := by
  simp only [← lower_eq_ok_iff, ← lowerTopLevel_eq]
  constructor
  · intro h
    obtain ⟨value₁, b₁, hfirst, h⟩ := Build.bind_eq_ok.mp h
    obtain ⟨others, b₂, hrest, hpure⟩ := Build.bind_eq_ok.mp h
    cases hpure
    obtain ⟨value₂, b₃, hsecond, hnone⟩ := Build.bind_eq_ok.mp hrest
    cases hnone
    exact ⟨value₁, b₁, value₂, rfl, hfirst, hsecond⟩
  · rintro ⟨value₁, b₁, value₂, rfl, hfirst, hsecond⟩
    refine Build.bind_eq_ok.mpr ⟨value₁, b₁, hfirst, ?_⟩
    refine Build.bind_eq_ok.mpr ⟨[value₂], after, ?_, rfl⟩
    exact Build.bind_eq_ok.mpr ⟨value₂, after, hsecond, rfl⟩

namespace Module

variable {m : Module} {exprs : List Expr} {values : List Value}

/-- A program has been lowered with these values exactly if its expressions have, and the module is
what they have left. -/
theorem lowerAll_eq_ok :
    (m.lowerAll exprs).result = .ok values ↔
      ∃ b, Expr.lowerEach exprs (Builder.ofModule m) = (.ok values, b) ∧
        (m.lowerAll exprs).module = b.module := by
  unfold lowerAll
  split
  · rename_i others b heq
    simp only [heq, Prod.mk.injEq, Except.ok.injEq]
    exact ⟨fun h => ⟨b, ⟨h, rfl⟩, rfl⟩, fun ⟨_, ⟨h, _⟩, _⟩ => h⟩
  · rename_i error b heq
    simp [heq]

/-- In a module whose functions are complete, independent expressions that are lowered in one order
are lowered in the other, and the modules are the same up to the order. -/
theorem Complete.exchange (hcomplete : m.Complete) (hm : m.Consistent) {e₁ e₂ : Expr}
    (hind : e₁.Independent e₂) (h : (m.lowerAll [e₁, e₂]).result = .ok values) :
    (∃ others, (m.lowerAll [e₂, e₁]).result = .ok others) ∧
      (m.lowerAll [e₁, e₂]).module.SameUpToOrder (m.lowerAll [e₂, e₁]).module := by
  obtain ⟨after, hlower, hthere⟩ := lowerAll_eq_ok.mp h
  obtain ⟨_, b₁, _, _, h₁, h₂⟩ := Expr.lowerEach_pair_eq_ok.mp hlower
  obtain ⟨w₂, b₂, w₁, back, h₂', h₁', htracks, htracks'⟩ :=
    h₁.exists_exchanged h₂ hind.topLevel rfl hm
  have hlower' := Expr.lowerEach_pair_eq_ok.mpr ⟨w₂, b₂, w₁, rfl, h₂', h₁'⟩
  have hback : (m.lowerAll [e₂, e₁]).result = .ok [w₂, w₁] ∧
      (m.lowerAll [e₂, e₁]).module = back.module := by
    simp only [lowerAll, hlower', and_self]
  refine ⟨⟨_, hback.1⟩, ?_⟩
  rw [hthere, hback.2]
  exact htracks.sameUpToOrder htracks' hcomplete (h₁.complete rfl hm hcomplete)
    (h₂'.complete rfl hm hcomplete)

/-- Whatever has been compiled and lowered in a session: if neither of two expressions has a name in
it that the other defines, they are lowered in one order exactly if they are in the other, and the
modules are then the same up to the order of their globals and functions and the numbers of
functions without a name. -/
theorem independent_expressions_commute (name : String) (calls : List Call) {e₁ e₂ : Expr}
    (hind : e₁.Independent e₂) :
    let m := ((empty name).answers calls).2
    let there := m.lowerAll [e₁, e₂]
    let back := m.lowerAll [e₂, e₁]
    ((∃ values, there.result = .ok values) ↔ ∃ values, back.result = .ok values) ∧
      ((∃ values, there.result = .ok values) → there.module.SameUpToOrder back.module) := by
  intro m there back
  have hempty : (empty name).Complete := fun _ _ => nofun
  have hcomplete : m.Complete := hempty.answers (consistent_empty name) calls
  have hm : m.Consistent := (consistent_empty name).answers calls
  refine ⟨⟨?_, ?_⟩, ?_⟩
  · rintro ⟨values, hvalues⟩
    exact (hcomplete.exchange hm hind hvalues).1
  · rintro ⟨values, hvalues⟩
    exact (hcomplete.exchange hm hind.symm hvalues).1
  · rintro ⟨values, hvalues⟩
    exact (hcomplete.exchange hm hind hvalues).2

/-- A function that is named twice, and a definition inside of an operand, both by an earlier
global. -/
theorem independent_expressions_commute_scaling :
    let scale : Expr := .define "f" (.define "g" (.lambda ["a"]
      (.binary .mul (.identifier "a") (.identifier "x"))))
    let sum : Expr := .binary .add (.define "y" (.identifier "x")) (.identifier "x")
    let m := ((empty "m").answers [.compile "(define x 2)"]).2
    let there := m.lowerAll [scale, sum]
    let back := m.lowerAll [sum, scale]
    there.result = .ok [.function 0, .function 1] ∧ back.result = .ok [.function 0, .function 1] ∧
      there.module.functions.map Func.name ≠ back.module.functions.map Func.name ∧
      there.module.SameUpToOrder back.module := by
  intro scale sum m there back
  have hind : scale.Independent sum := ⟨by decide, by decide⟩
  have hthere : there.result = .ok [.function 0, .function 1] := by decide +kernel
  have hback : back.result = .ok [.function 0, .function 1] := by decide +kernel
  refine ⟨hthere, hback, by decide +kernel, ?_⟩
  exact (independent_expressions_commute "m" _ hind).2 ⟨_, hthere⟩

end Module

end LambdaArith
