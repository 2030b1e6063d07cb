import LambdaArith.Proofs.Failure
import LambdaArith.Proofs.Request

/-!
# What requests are answered

Each request is answered by the operation, the lowering or the call that it asks for. An answer
depends on nothing that requests cannot ask for: builders at the same place of alike modules answer
any requests alike, and are alike afterwards.
-/

namespace LambdaArith

/-- What is answered to a request. -/
inductive Reply where
  | operation (result : Except LoweringError Answer)
  | lower (result : Except LoweringError Value)
  | call (result : Except Error (List Value))

namespace Request

mutual

/-- The answers to a request; several, if it contains requests. -/
def replies : Request → Builder → List Reply
  | .operation op, b => [.operation (op.perform b).1]
  | .lower e, b => [.lower (e.lower b).1]
  | .call c, b => [.call (b.module.answer c).1]
  | .within point requests, b => repliesAll requests { b with point := some point }

/-- The answers to requests in order. -/
def repliesAll : List Request → Builder → List Reply
  | [], _ => []
  | request :: rest, b => request.replies b ++ repliesAll rest (request.serve b)

end

end Request

namespace Build

variable {α : Type}

/-- Moving the insertion point respects likeness. -/
theorem moveTo_respects (point : Option InsertPoint) : Respects (moveTo point) :=
  fun _ _ h => ⟨rfl, h.module_alike, rfl⟩

/-- An operation of the backend that is never refused respects likeness if it leaves modules
alike. -/
theorem Respects.apply_always {edit : Module → Module}
    (h : ∀ m n, m.Alike n → (edit m).Alike (edit n)) :
    Respects (Build.apply fun m => .ok ((), edit m)) :=
  Respects.apply fun m n hmn => ⟨rfl, h m n hmn⟩

end Build

/-- Setting the target of alike modules. -/
theorem Module.Alike.setTarget {m n : Module} (h : m.Alike n) (target : Target) :
    (m.setTarget target).Alike (n.setTarget target) :=
  ⟨h.name_eq, rfl, h.globals_eq, h.functions_eq, h.lookup?_eq⟩

open Build in
/-- Every operation respects likeness. -/
theorem Operation.perform_respects (operation : Operation) : Respects operation.perform := by
  cases operation with
  | setTarget target =>
    exact (Respects.apply_always fun m n h => h.setTarget target).bind fun _ => Respects.pure _
  | addGlobal name initializer =>
    exact (Respects.apply fun m n h => h.addGlobal name initializer).bind fun _ => Respects.pure _
  | addFunction parameters =>
    exact (Respects.apply fun m n h => h.addFunction parameters).bind fun _ => Respects.pure _
  | appendBlock function label =>
    exact (Respects.apply fun m n h => h.appendBlock function label).bind fun _ => Respects.pure _
  | setName value name =>
    exact (Respects.apply fun m n h => h.setName value name).bind fun _ => Respects.pure _
  | checkpoint =>
    refine Respects.get_bind (fun b c h => ?_) fun b => Respects.pure _
    rw [h.module_alike.checkpoint_eq]
  | rollback mark =>
    exact (Respects.apply_always fun m n h => h.rollback mark).bind fun _ => Respects.pure _
  | positionAtEnd point => exact (moveTo_respects _).bind fun _ => Respects.pure _
  | clearPosition => exact (moveTo_respects _).bind fun _ => Respects.pure _
  | compute op lhs rhs => exact (operation_respects op lhs rhs).bind fun _ => Respects.pure _
  | ret value => exact (ret_respects value).bind fun _ => Respects.pure _

namespace Request

mutual

/-- Alike builders answer a request alike, and are alike afterwards. -/
theorem replies_alike : ∀ (request : Request) {b c : Builder}, b.Alike c →
    request.replies b = request.replies c ∧ (request.serve b).Alike (request.serve c)
  | .operation op, b, c, h => by
    obtain ⟨hresult, hafter⟩ := op.perform_respects b c h
    simp only [replies, serve, hresult, true_and]
    exact hafter
  | .lower e, b, c, h => by
    obtain ⟨hresult, hafter⟩ := e.lower_respects b c h
    simp only [replies, serve, hresult, true_and]
    exact hafter
  | .call asked, b, c, h => by
    obtain ⟨hresult, hafter⟩ := h.module_alike.answer asked
    simp only [replies, serve, hresult, true_and]
    exact ⟨hafter, h.point_eq⟩
  | .within point requests, b, c, h => by
    have hinside : Builder.Alike { b with point := some point } { c with point := some point } :=
      ⟨h.module_alike, rfl⟩
    obtain ⟨hresults, hafter⟩ := repliesAll_alike requests hinside
    simp only [replies, serve, hresults, true_and]
    exact ⟨hafter.module_alike, h.point_eq⟩

/-- Alike builders answer requests in order alike, and are alike afterwards. -/
theorem repliesAll_alike : ∀ (requests : List Request) {b c : Builder}, b.Alike c →
    repliesAll requests b = repliesAll requests c ∧
      (serveAll requests b).Alike (serveAll requests c)
  | [], _, _, h => ⟨rfl, h⟩
  | request :: rest, b, c, h => by
    obtain ⟨hresult, hmiddle⟩ := replies_alike request h
    obtain ⟨hresults, hafter⟩ := repliesAll_alike rest hmiddle
    simp only [repliesAll, serveAll, hresult, hresults, true_and]
    exact hafter

end

end Request

end LambdaArith
