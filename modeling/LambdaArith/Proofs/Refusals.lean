import LambdaArith.Proofs.Replies
import Mathlib.Data.Finset.Basic

/-!
# Refused operations have no effect

An operation looks at everything that it can be refused for before it changes anything. A refused
operation therefore leaves the module and the insertion point as they are, and any refused
operations can be left out of a sequence of requests: the others are answered as before, and at no
time afterwards can it be seen that something has been left out.
-/

namespace LambdaArith

/-- The builder has this module and this insertion point, whatever has happened. -/
def Builder.StandsAt (m : Module) (point : Option InsertPoint) (b : Builder) : Prop :=
  b.module = m ∧ b.point = point

namespace Build

variable {α β : Type}

/-- Work that changes neither the module nor the insertion point. -/
def Idle (work : Build α) : Prop :=
  ∀ m point, Keeps (Builder.StandsAt m point) (fun _ => True) work

/-- Work that changes neither the module nor the insertion point if it fails. -/
def Atomic (work : Build α) : Prop :=
  ∀ b error, (work b).1 = .error error → (work b).2.StandsAt b.module b.point

/-- Failing changes nothing. -/
theorem atomic_fail (error : LoweringError) : Atomic (Build.fail error : Build α) :=
  fun _ _ _ => ⟨rfl, rfl⟩

/-- An operation of the backend changes nothing if it is refused. -/
theorem atomic_apply (operation : Module → Except BackendError (α × Module)) :
    Atomic (apply operation) := by
  intro b error herror
  unfold apply at herror ⊢
  split at herror
  · cases herror
  · exact ⟨rfl, rfl⟩

/-- Work after idle work changes nothing if it fails, if it does so on its own. -/
theorem Idle.bind_atomic {work : Build α} {next : α → Build β} (hwork : Idle work)
    (hnext : ∀ a, Atomic (next a)) : Atomic (work >>= next) := by
  intro b error herror
  have hidle := (hwork b.module b.point b ⟨rfl, rfl⟩).1
  rw [bind_apply] at herror ⊢
  split at herror
  · rename_i a after hok
    rw [hok] at hidle
    obtain ⟨hmodule, hpoint⟩ := hnext a after error herror
    exact ⟨hmodule.trans hidle.1, hpoint.trans hidle.2⟩
  · rename_i refusal after hrefusal
    rw [hrefusal] at hidle
    exact hidle

/-- Work of which only the result is used changes nothing if it fails, if it does so on its own. -/
theorem Atomic.map {work : Build α} (hwork : Atomic work) (f : α → β) :
    Atomic (work >>= fun a => pure (f a)) := by
  intro b error herror
  have hfails := hwork b
  rw [bind_apply] at herror ⊢
  split at herror
  · cases herror
  · rename_i refusal after hrefusal
    rw [hrefusal] at hfails
    exact hfails refusal rfl

/-- What is done at the insertion point after an event changes nothing if it fails, if it does so
on its own. -/
theorem atomic_atPoint (instruction : String) (event : InsertPoint → Event)
    {next : InsertPoint → Build α} (hnext : ∀ p, Atomic (next p)) :
    Atomic (requirePoint instruction >>= fun p => record (event p) >>= fun _ => next p) := by
  have hpoint : Idle (requirePoint instruction) := fun _ _ => requirePoint_keeps instruction
  have hrecord : ∀ p, Idle (record (event p)) := fun p _ _ => Keeps.record (event p) fun _ hb => hb
  exact hpoint.bind_atomic fun p => (hrecord p).bind_atomic fun _ => hnext p

/-- Applying an operator changes nothing if it is refused. -/
theorem atomic_operation (op : Operator) (lhs rhs : Value) : Atomic (operation op lhs rhs) := by
  unfold operation
  split
  · split
    · exact fun _ _ => nofun
    · exact atomic_atPoint _ _ fun _ => atomic_apply _
  · exact atomic_fail _

/-- Returning from a function changes nothing if it is refused. -/
theorem atomic_ret (value : Value) : Atomic (ret value) := by
  unfold ret
  split
  · exact atomic_atPoint _ _ fun _ => (atomic_apply _).map fun _ => ()
  · exact atomic_fail _

end Build

open Build in
/-- An operation that is refused changes neither the module nor the insertion point. -/
theorem Operation.atomic_perform (operation : Operation) : Atomic operation.perform := by
  have happly : ∀ {α : Type} (edit : Module → Except BackendError (α × Module))
      (answer : α → Answer), Atomic (Build.apply edit >>= fun a => pure (answer a)) :=
    fun edit answer => (atomic_apply edit).map answer
  cases operation with
  | setTarget target => exact happly _ fun _ => .done
  | addGlobal name initializer => exact happly _ .value
  | addFunction parameters => exact happly _ .function
  | appendBlock function label => exact happly _ .point
  | setName value name => exact happly _ fun _ => .done
  | checkpoint => exact fun _ _ => nofun
  | rollback mark => exact happly _ fun _ => .done
  | positionAtEnd point => exact fun _ _ => nofun
  | clearPosition => exact fun _ _ => nofun
  | compute op lhs rhs => exact (atomic_operation op lhs rhs).map Answer.value
  | ret value => exact (atomic_ret value).map fun _ => Answer.done

/-- An operation has been refused. -/
def Reply.isRefused : Reply → Bool
  | .operation (.error _) => true
  | _ => false

/-- The entries of a list without those at these places, where the first entry is at `start`. -/
def leaveOut {α : Type} (places : Finset Nat) : Nat → List α → List α
  | _, [] => []
  | start, a :: rest =>
    if start ∈ places then leaveOut places (start + 1) rest
    else a :: leaveOut places (start + 1) rest

/-- Entries are left out of the first of two lists and then of the second. -/
theorem leaveOut_append {α : Type} (places : Finset Nat) (start : Nat) (first second : List α) :
    leaveOut places start (first ++ second) =
      leaveOut places start first ++ leaveOut places (start + first.length) second := by
  induction first generalizing start with
  | nil => rfl
  | cons a rest ih =>
    have hstart : start + (rest.length + 1) = start + 1 + rest.length := by omega
    rw [List.cons_append, leaveOut, leaveOut, ih, List.length_cons, hstart]
    split
    · rfl
    · rfl

namespace Request

mutual

/-- How many answers there are to a request. -/
def size : Request → Nat
  | .operation _ => 1
  | .lower _ => 1
  | .call _ => 1
  | .within _ requests => sizeAll requests

/-- How many answers there are to requests. -/
def sizeAll : List Request → Nat
  | [] => 0
  | request :: rest => request.size + sizeAll rest

end

mutual

/-- What is left of a request without what is answered at these places, where the first answer is at
`start`. The insertion point is moved even if nothing is left to be done there. -/
def without (places : Finset Nat) (start : Nat) : Request → List Request
  | .operation op => if start ∈ places then [] else [.operation op]
  | .lower e => if start ∈ places then [] else [.lower e]
  | .call c => if start ∈ places then [] else [.call c]
  | .within point requests => [.within point (withoutAll places start requests)]

/-- What is left of requests without what is answered at these places. -/
def withoutAll (places : Finset Nat) (start : Nat) : List Request → List Request
  | [] => []
  | request :: rest => request.without places start ++ withoutAll places (start + request.size) rest

end

mutual

/-- The builders after each answer to a request. -/
def stages : Request → Builder → List Builder
  | .operation op, b => [(op.perform b).2]
  | .lower e, b => [(e.lower b).2]
  | .call c, b => [(Request.call c).serve b]
  | .within point requests, b => stagesAll requests { b with point := some point }

/-- The builders after each answer to requests in order. -/
def stagesAll : List Request → Builder → List Builder
  | [], _ => []
  | request :: rest, b => request.stages b ++ stagesAll rest (request.serve b)

end

mutual

/-- The number of answers to a request does not depend on the builder. -/
theorem length_replies : ∀ (request : Request) (b : Builder),
    (request.replies b).length = request.size ∧ (request.stages b).length = request.size
  | .operation _, _ => ⟨rfl, rfl⟩
  | .lower _, _ => ⟨rfl, rfl⟩
  | .call _, _ => ⟨rfl, rfl⟩
  | .within point requests, b => by
    simp only [replies, stages, size]
    exact length_repliesAll requests { b with point := some point }

/-- The number of answers to requests does not depend on the builder. -/
theorem length_repliesAll : ∀ (requests : List Request) (b : Builder),
    (repliesAll requests b).length = sizeAll requests ∧
      (stagesAll requests b).length = sizeAll requests
  | [], _ => ⟨rfl, rfl⟩
  | request :: rest, b => by
    obtain ⟨hreplies, hstages⟩ := length_replies request b
    obtain ⟨hreplies', hstages'⟩ := length_repliesAll rest (request.serve b)
    simp only [repliesAll, stagesAll, sizeAll, List.length_append, hreplies, hstages, hreplies',
      hstages', and_self]

end

/-- Requests in a row are served one after the other. -/
theorem serveAll_append (first second : List Request) (b : Builder) :
    serveAll (first ++ second) b = serveAll second (serveAll first b) := by
  induction first generalizing b with
  | nil => rfl
  | cons request rest ih =>
    simp only [List.cons_append, serveAll]
    exact ih (request.serve b)

/-- Requests in a row are answered one after the other. -/
theorem repliesAll_append (first second : List Request) (b : Builder) :
    repliesAll (first ++ second) b =
      repliesAll first b ++ repliesAll second (serveAll first b) := by
  induction first generalizing b with
  | nil => rfl
  | cons request rest ih =>
    simp only [List.cons_append, repliesAll, serveAll, ih, List.append_assoc]

/-- Requests in a row make the builders of one after those of the other. -/
theorem stagesAll_append (first second : List Request) (b : Builder) :
    stagesAll (first ++ second) b = stagesAll first b ++ stagesAll second (serveAll first b) := by
  induction first generalizing b with
  | nil => rfl
  | cons request rest ih =>
    simp only [List.cons_append, stagesAll, serveAll, ih, List.append_assoc]

/-- Requests have these answers, make builders that are alike to these, and leave one that is alike
to the last of them. -/
structure ServeAs (requests : List Request) (c : Builder) (replies : List Reply)
    (stages : List Builder) (after : Builder) : Prop where
  replies_eq : repliesAll requests c = replies
  stages_alike : List.Forall₂ Builder.Alike (stagesAll requests c) stages
  after_alike : (serveAll requests c).Alike after

/-- No requests leave a builder as it is. -/
theorem ServeAs.nil {b c : Builder} (h : c.Alike b) : ServeAs [] c [] [] b :=
  ⟨rfl, .nil, h⟩

/-- A request with one answer, from builders that are alike. -/
theorem ServeAs.single {request : Request} {b c : Builder} (h : c.Alike b)
    (hstages : ∀ b, request.stages b = [request.serve b]) :
    ServeAs [request] c (request.replies b) (request.stages b) (request.serve b) := by
  obtain ⟨hreplies, hafter⟩ := replies_alike request h
  refine ⟨?_, ?_, hafter⟩
  · simp only [repliesAll, List.append_nil]
    exact hreplies
  · simp only [stagesAll, List.append_nil, hstages]
    exact .cons hafter .nil

/-- What is done for requests in a row is done for the one and then for the other. -/
theorem ServeAs.append {first second : List Request} {c middle after : Builder}
    {replies replies' : List Reply} {stages stages' : List Builder}
    (hfirst : ServeAs first c replies stages middle)
    (hsecond : ServeAs second (serveAll first c) replies' stages' after) :
    ServeAs (first ++ second) c (replies ++ replies') (stages ++ stages') after where
  replies_eq := by rw [repliesAll_append, hfirst.replies_eq, hsecond.replies_eq]
  stages_alike := by
    rw [stagesAll_append]
    exact List.rel_append hfirst.stages_alike hsecond.stages_alike
  after_alike := by
    rw [serveAll_append]
    exact hsecond.after_alike

/-- What is answered at these places is that an operation is refused. -/
def RefusedAt (places : Finset Nat) (start : Nat) (replies : List Reply) : Prop :=
  ∀ index reply, replies[index]? = some reply → start + index ∈ places → reply.isRefused = true

/-- Refusals at places of two lists are refusals at places of each. -/
theorem RefusedAt.of_append {places : Finset Nat} {start : Nat} {first second : List Reply}
    (h : RefusedAt places start (first ++ second)) :
    RefusedAt places start first ∧ RefusedAt places (start + first.length) second := by
  constructor
  · intro index reply hreply
    have hlt := (List.getElem?_eq_some_iff.mp hreply).1
    exact h index reply (by rw [List.getElem?_append_left hlt, hreply])
  · intro index reply hreply hplace
    refine h (first.length + index) reply ?_ (by rwa [← Nat.add_assoc])
    rw [List.getElem?_append_right (by omega), Nat.add_sub_cancel_left, hreply]

/-- An operation that is left out only if it is refused. -/
theorem serveAs_without_operation {places : Finset Nat} {start : Nat} {op : Operation}
    {b c : Builder} (h : c.Alike b)
    (hrefused : RefusedAt places start ((Request.operation op).replies b)) :
    ServeAs ((Request.operation op).without places start) c
      (leaveOut places start ((Request.operation op).replies b))
      (leaveOut places start ((Request.operation op).stages b)) (op.perform b).2 := by
  by_cases hplace : start ∈ places
  · have hrefusal := hrefused 0 _ rfl hplace
    cases hresult : (op.perform b).1 with
    | ok answer =>
      rw [hresult] at hrefusal
      cases hrefusal
    | error error =>
      obtain ⟨hmodule, hpoint⟩ := op.atomic_perform b error hresult
      have hafter : c.Alike (op.perform b).2 :=
        ⟨hmodule ▸ h.module_alike, h.point_eq.trans hpoint.symm⟩
      simp only [without, replies, stages, leaveOut, if_pos hplace]
      exact .nil hafter
  · simp only [without, replies, stages, leaveOut, if_neg hplace]
    exact .single h fun _ => rfl

mutual

/-- A request without refused operations is served as the whole of it. -/
theorem serveAs_without {places : Finset Nat} : ∀ (request : Request) (start : Nat) {b c : Builder},
    c.Alike b → RefusedAt places start (request.replies b) →
      ServeAs (request.without places start) c (leaveOut places start (request.replies b))
        (leaveOut places start (request.stages b)) (request.serve b)
  | .operation op, start, b, c, h, hrefused => serveAs_without_operation h hrefused
  | .lower e, start, b, c, h, hrefused => by
    have hplace : start ∉ places := fun hplace => nomatch hrefused 0 _ rfl hplace
    simp only [without, replies, stages, leaveOut, if_neg hplace]
    exact .single h fun _ => rfl
  | .call asked, start, b, c, h, hrefused => by
    have hplace : start ∉ places := fun hplace => nomatch hrefused 0 _ rfl hplace
    simp only [without, replies, stages, leaveOut, if_neg hplace]
    exact .single h fun _ => rfl
  | .within point requests, start, b, c, h, hrefused => by
    have hinside : Builder.Alike { c with point := some point } { b with point := some point } :=
      ⟨h.module_alike, rfl⟩
    obtain ⟨hreplies, hstages, hafter⟩ := serveAs_withoutAll requests start hinside hrefused
    refine ⟨?_, ?_, ?_⟩
    · simp only [without, repliesAll, replies, List.append_nil]
      exact hreplies
    · simp only [without, stagesAll, stages, List.append_nil]
      exact hstages
    · simp only [without, serveAll, serve]
      exact ⟨hafter.module_alike, h.point_eq⟩

/-- Requests without refused operations are served as all of them. -/
theorem serveAs_withoutAll {places : Finset Nat} : ∀ (requests : List Request) (start : Nat)
    {b c : Builder}, c.Alike b → RefusedAt places start (repliesAll requests b) →
      ServeAs (withoutAll places start requests) c (leaveOut places start (repliesAll requests b))
        (leaveOut places start (stagesAll requests b)) (serveAll requests b)
  | [], _, _, _, h, _ => .nil h
  | request :: rest, start, b, c, h, hrefused => by
    obtain ⟨hreplies, hstages⟩ := length_replies request b
    obtain ⟨hfirst, hrest⟩ := hrefused.of_append
    rw [hreplies] at hrest
    have hserved := serveAs_without request start h hfirst
    have hlater := serveAs_withoutAll rest (start + request.size) hserved.after_alike hrest
    have hboth := hserved.append hlater
    rw [← hreplies, ← leaveOut_append, hreplies, ← hstages, ← leaveOut_append, hstages] at hboth
    exact hboth

end

end Request

end LambdaArith
