import LambdaArith.Proofs.Extensions
import LambdaArith.Proofs.Replies

/-!
# What going back to a checkpoint undoes

A checkpoint says no more of a module than how many globals and functions it has. Taking the module
back to it restores the module nevertheless, whatever has been done since, as long as it has been
done to globals and functions that are newer: they may have been filled, renamed, dropped and made
again, and calls of sessions may have succeeded or failed in between. What is restored cannot be
told from what has been, by no question and by no answer to anything that is done later.
-/

namespace LambdaArith

/-- The operation does not touch what has been there at the checkpoint. The values and places that
it is given need not exist. -/
def Operation.Spares (mark : Checkpoint) (point : Option InsertPoint) : Operation → Prop
  | setTarget _ => False
  | addGlobal _ _ => True
  | addFunction _ => True
  | appendBlock function _ => mark.functions ≤ function
  | setName value _ => ∀ symbol : Symbol, symbol.value = value → mark.covers symbol = false
  | checkpoint => True
  | rollback older => mark ≤ older
  | positionAtEnd _ => True
  | clearPosition => True
  | compute _ _ _ => mark.Precedes point
  | ret _ => mark.Precedes point

namespace Request

mutual

/-- The request does not touch what has been there at the checkpoint. -/
def Spares (mark : Checkpoint) : Request → Builder → Prop
  | .operation op, b => op.Spares mark b.point
  | .lower _, b => mark.Precedes b.point
  | .call _, _ => True
  | .within point requests, b => SpareAll mark requests { b with point := some point }

/-- Each of the requests in order does not touch what has been there at the checkpoint, or changes
nothing at all. -/
def SpareAll (mark : Checkpoint) : List Request → Builder → Prop
  | [], _ => True
  | request :: rest, b =>
    (request.Spares mark b ∨ (request.serve b).module = b.module) ∧
      SpareAll mark rest (request.serve b)

end

end Request

open Build in
/-- An operation that spares what has been there leaves an extension, refused or not. -/
theorem Operation.Spares.extends {base : Module} {op : Operation} {b : Builder}
    (h : op.Spares base.checkpoint b.point) (hb : base.Extends b.module) :
    base.Extends (op.perform b).2.module := by
  have hdone : ∀ {I : Builder → Prop} (answer : Answer),
      Keeps I (fun _ => True) (pure answer) := fun _ => Keeps.pure trivial
  cases op with
  | setTarget target => exact h.elim
  | addGlobal name initializer =>
    refine (Keeps.bind (apply_keeps fun _ _ _ hm hok => ?_) (fun _ _ => hdone _) b hb).1
    exact hm.addGlobal hok
  | addFunction parameters =>
    refine (Keeps.bind (apply_keeps fun _ _ _ hm hok => ?_) (fun _ _ => hdone _) b hb).1
    cases hok
    exact hm.addFunction parameters
  | appendBlock function label =>
    refine (Keeps.bind (apply_keeps fun _ _ _ hm hok => ?_) (fun _ _ => hdone _) b hb).1
    exact hm.appendBlock h hok
  | setName value name =>
    refine (Keeps.bind (apply_keeps fun _ _ _ hm hmap => ?_) (fun _ _ => hdone _) b hb).1
    exact hm.setName h (Module.setName_of_map hmap)
  | checkpoint => exact hb
  | rollback older => exact hb.rollback h
  | positionAtEnd point => exact hb
  | clearPosition => exact hb
  | compute op lhs rhs =>
    have hwork : Keeps (Builder.Framed base none) _ _ := operation_keeps_framed op lhs rhs
    exact Module.Extends.of_framed (hwork.bind (fun _ _ => hdone _) b (hb.framed h)).1
  | ret value =>
    have hwork : Keeps (Builder.Framed base none) _ _ := ret_keeps_framed value
    exact Module.Extends.of_framed (hwork.bind (fun _ _ => hdone _) b (hb.framed h)).1

namespace Request

mutual

/-- A request that spares what has been there leaves an extension. -/
theorem extends_of_spares {base : Module} : ∀ (request : Request) {b : Builder},
    request.Spares base.checkpoint b → base.Extends b.module →
      base.Extends (request.serve b).module
  | .operation op, _, h, hb => Operation.Spares.extends h hb
  | .lower e, b, h, hb => Module.Extends.of_framed (e.lower_keeps_framed b (hb.framed h)).1
  | .call asked, _, _, hb => hb.answer asked
  | .within point requests, b, h, hb => by
    rw [serve]
    exact extends_of_spareAll requests (b := { b with point := some point }) h hb

/-- Requests that spare what has been there leave an extension. -/
theorem extends_of_spareAll {base : Module} : ∀ (requests : List Request) {b : Builder},
    SpareAll base.checkpoint requests b → base.Extends b.module →
      base.Extends (serveAll requests b).module
  | [], _, _, hb => hb
  | request :: rest, b, ⟨hfirst, hrest⟩, hb => by
    refine extends_of_spareAll rest hrest ?_
    rcases hfirst with hspares | hsame
    · exact extends_of_spares request hspares hb
    · rw [hsame]
      exact hb

end

end Request

namespace Module

/-- After requests that spare what a module has had at some time, each of them refused or not,
every checkpoint is a later one, and going back to the checkpoint of that time makes the module
what it has been: no question tells the two apart, and all later requests are answered alike. -/
theorem rollback_undoes_additions (name : String) (earlier later : List Request)
    (point : Option InsertPoint)
    (hspare : Request.SpareAll (ofRequests name earlier).checkpoint later
      ⟨ofRequests name earlier, point, []⟩) :
    let m := ofRequests name earlier
    let after := (Request.serveAll later ⟨m, point, []⟩).module
    m.checkpoint ≤ after.checkpoint ∧ (after.rollback m.checkpoint).Indistinguishable m ∧
      ∀ (next : List Request) (place : Option InsertPoint),
        let restored : Builder := ⟨after.rollback m.checkpoint, place, []⟩
        let untouched : Builder := ⟨m, place, []⟩
        Request.repliesAll next restored = Request.repliesAll next untouched ∧
          (Request.serveAll next restored).module.Indistinguishable
            (Request.serveAll next untouched).module := by
  intro m after
  have hm : m.Consistent := consistent_invariant.ofRequests consistent_empty name earlier
  have hafter : m.Extends after := Request.extends_of_spareAll later hspare (.refl hm)
  have hlike : (after.rollback m.checkpoint).Alike m := hafter.frame.rollback_alike hm
  refine ⟨hafter.checkpoint_le, hlike.indistinguishable, fun next place => ?_⟩
  obtain ⟨hreplies, hserved⟩ := Request.repliesAll_alike next
    (b := ⟨after.rollback m.checkpoint, place, []⟩) (c := ⟨m, place, []⟩) ⟨hlike, rfl⟩
  exact ⟨hreplies, hserved.module_alike.indistinguishable⟩

/-- With an old function and an old global `g`: a new global is renamed so that another takes the
name it has had, which is dropped and made again as a function, and constants are added up in the
old function. -/
theorem rollback_undoes_additions_names_taken :
    let earlier : List Request := [.operation (.addFunction ["x"]),
      .operation (.appendBlock 0 "entry"), .operation (.addGlobal "g" (.constant 2))]
    let later : List Request := [.operation (.addGlobal "h" (.global 0)),
      .operation (.setName (.global 1) "k"), .operation (.addGlobal "h" (.constant 3)),
      .operation (.rollback ⟨2, 1⟩), .operation (.addFunction ["y"]),
      .operation (.setName (.function 1) "h"), .operation (.addGlobal "g" (.constant 4)),
      .operation (.compute .add (.constant 1) (.constant 2)),
      .call (.lowerAll [.define "z" (.number 2), .identifier "w"])]
    let after := (Request.serveAll later ⟨ofRequests "m" earlier, some ⟨0, 0⟩, []⟩).module
    after.lookup? "h" = some (.function 1) ∧ after.lookup? "k" = some (.global 1) ∧
      (after.rollback (ofRequests "m" earlier).checkpoint).Indistinguishable
        (ofRequests "m" earlier) := by
  intro earlier later after
  have hspare : Request.SpareAll (ofRequests "m" earlier).checkpoint later
      ⟨ofRequests "m" earlier, some ⟨0, 0⟩, []⟩ := by
    have hnewGlobal : ∀ symbol : Symbol, symbol.value = .global 1 →
        (ofRequests "m" earlier).checkpoint.covers symbol = false := by
      rintro (_ | _) ⟨⟩
      decide
    have hnewFunction : ∀ symbol : Symbol, symbol.value = .function 1 →
        (ofRequests "m" earlier).checkpoint.covers symbol = false := by
      rintro (_ | _) ⟨⟩
      decide
    have hfolded : ∀ b : Builder, ((Request.operation
        (.compute .add (.constant 1) (.constant 2))).serve b).module = b.module := fun _ => rfl
    refine ⟨.inl trivial, .inl hnewGlobal, .inl trivial, .inl ?_, .inl trivial, .inl hnewFunction,
      .inl trivial, .inr (hfolded _), .inl trivial, trivial⟩
    exact show (⟨1, 1⟩ : Checkpoint) ≤ ⟨2, 1⟩ by decide
  refine ⟨?_, ?_, (rollback_undoes_additions "m" earlier later _ hspare).2.1⟩
  · decide +kernel
  · decide +kernel

end Module

end LambdaArith
