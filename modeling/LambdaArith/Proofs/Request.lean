import LambdaArith.Proofs.Calls
import LambdaArith.Proofs.Operation

/-!
# Everything that can be asked of a module

Besides the operations on a module and its builder, a module serves whoever lowers expressions into
it and every session that is made over it. Requests of all these kinds follow each other in any
order, and any of them may be made while the insertion point is moved for a time. Several builders
for one module are no more than one whose insertion point is set before each request.
-/

namespace LambdaArith

/-- What can be asked of a module and a builder for it. -/
inductive Request where
  | operation (operation : Operation)
  /-- To lower an expression at the insertion point. Nothing is taken back if that fails. -/
  | lower (e : Expr)
  /-- To answer a call of a session over the module, which has builders of its own. -/
  | call (call : Call)
  /-- To serve requests with the insertion point moved, and to move it back. -/
  | within (point : InsertPoint) (requests : List Request)

namespace Request

mutual

/-- The builder after a request, which may have been refused. -/
def serve : Request → Builder → Builder
  | .operation op, b => (op.perform b).2
  | .lower e, b => (e.lower b).2
  | .call c, b => { b with module := (b.module.answer c).2 }
  | .within point requests, b => (b.within point fun inner => ((), serveAll requests inner)).2

/-- The builder after requests in order. -/
def serveAll : List Request → Builder → Builder
  | [], b => b
  | request :: rest, b => serveAll rest (request.serve b)

end

end Request

/-- The module after requests that are made of an empty one. -/
def Module.ofRequests (name : String) (requests : List Request) : Module :=
  (Request.serveAll requests (Builder.ofModule (.empty name))).module

namespace Module.Invariant

variable {P : Module → Prop} {m : Module}

/-- Lowering a program keeps the invariants, also if it fails and everything is taken back. -/
theorem lowerAll (hP : Invariant P) (hm : P m) (exprs : List Expr) :
    P (m.lowerAll exprs).module := by
  have hlowered := (Expr.lowerEach_keeps hP exprs (Builder.ofModule m) hm).1
  unfold Module.lowerAll
  split
  · rename_i values b heq
    rw [heq] at hlowered
    exact hlowered
  · rename_i error b heq
    rw [heq] at hlowered
    exact hP.rollback m.checkpoint hlowered

/-- A call keeps the invariants. -/
theorem answer (hP : Invariant P) (hm : P m) (call : Call) : P (m.answer call).2 := by
  cases call with
  | lowerAll exprs => exact hP.lowerAll hm exprs
  | compile source =>
    have hmodule : (m.answer (.compile source)).2 = (m.compile source).module := rfl
    rw [hmodule]
    rcases m.compile_cases source with ⟨_, _, hsame, _⟩ | ⟨exprs, _, _, hlowered⟩
    · rw [hsame]
      exact hm
    · rw [hlowered]
      exact hP.lowerAll hm exprs

/-- Calls in any number keep the invariants. -/
theorem answers (hP : Invariant P) (hm : P m) (calls : List Call) : P (m.answers calls).2 := by
  induction calls generalizing m with
  | nil => exact hm
  | cons call rest ih => exact ih (hP.answer hm call)

mutual

/-- A request keeps the invariants. -/
theorem serve (hP : Invariant P) : ∀ (request : Request) {b : Builder}, P b.module →
    P (request.serve b).module
  | .operation op, b, hb => (op.perform_keeps hP b hb).1
  | .lower e, b, hb => (e.lower_keeps hP b hb).1
  | .call c, _, hb => hP.answer hb c
  | .within point requests, b, hb => by
    rw [Request.serve]
    exact hP.serveAll requests (b := { b with point := some point }) hb

/-- Requests in any number and order keep the invariants. -/
theorem serveAll (hP : Invariant P) : ∀ (requests : List Request) {b : Builder}, P b.module →
    P (Request.serveAll requests b).module
  | [], _, hb => hb
  | request :: rest, _, hb => hP.serveAll rest (hP.serve request hb)

end

/-- What holds of empty modules holds of every module that requests make out of them. -/
theorem ofRequests (hP : Invariant P) (hempty : ∀ name, P (.empty name)) (name : String)
    (requests : List Request) : P (Module.ofRequests name requests) :=
  hP.serveAll requests (hempty name)

end Module.Invariant

end LambdaArith
