import LambdaArith.Lowering

/-!
# Moving what is new

Globals and functions are known by their places, which depend on what has been added before them.
When the same is added behind something else, everything that is new has another place: places up
to a checkpoint stay, and those from there on go on behind another checkpoint. Values, instructions
and functions are renumbered accordingly.
-/

namespace LambdaArith

/-- The place that one gets if the places from `start` on go on from `next` instead. -/
def shift (start next place : Nat) : Nat :=
  if place < start then place else next + (place - start)

section Places

variable {start next place other : Nat}

/-- Places in front of the start stay. -/
theorem shift_of_lt (h : place < start) : shift start next place = place :=
  if_pos h

/-- Places from the start on move. -/
theorem shift_of_le (h : start ≤ place) : shift start next place = next + (place - start) :=
  if_neg (Nat.not_lt.mpr h)

/-- Places keep their order when they move further. -/
theorem shift_lt_shift_iff (h : start ≤ next) :
    shift start next place < shift start next other ↔ place < other := by
  unfold shift
  split
  · split <;> omega
  · split <;> omega

/-- No two places become the same when they move further. -/
theorem shift_inj (h : start ≤ next) : shift start next place = shift start next other ↔
    place = other := by
  have hlt := @shift_lt_shift_iff start next place other h
  have hgt := @shift_lt_shift_iff start next other place h
  omega

end Places

section Lists

variable {α : Type} {f : α → α} {start place : Nat} {front xs : List α} {x : α}

/-- What stands in a list from `start` on, changed by `f` and put behind `front`. -/
def rebase (f : α → α) (start : Nat) (front xs : List α) : List α :=
  front ++ (xs.drop start).map f

/-- What is moved is found at its new place. -/
theorem getElem?_rebase (h : start ≤ place) :
    (rebase f start front xs)[shift start front.length place]? = (xs[place]?).map f := by
  have hsum : start + (place - start) = place := by omega
  rw [shift_of_le h, rebase, List.getElem?_append_right (Nat.le_add_right _ _),
    Nat.add_sub_cancel_left, List.getElem?_map, List.getElem?_drop, hsum]

/-- The end of a list moves to the end of what has been moved. -/
theorem length_rebase (h : start ≤ xs.length) :
    (rebase f start front xs).length = shift start front.length xs.length := by
  rw [shift_of_le h, rebase, List.length_append, List.length_map, List.length_drop]

/-- Adding an element and moving it is adding it where it is moved to. -/
theorem rebase_append (h : start ≤ xs.length) :
    rebase f start front (xs ++ [x]) = rebase f start front xs ++ [f x] := by
  rw [rebase, rebase, List.drop_append_of_le_length h, List.map_append, List.append_assoc,
    List.map_singleton]

/-- Replacing an element that is moved is replacing it where it is moved to. -/
theorem rebase_set (h : start ≤ place) :
    rebase f start front (xs.set place x) =
      (rebase f start front xs).set (shift start front.length place) (f x) := by
  rw [shift_of_le h, rebase, rebase, List.drop_set, if_neg (Nat.not_lt.mpr h), List.map_set,
    List.set_append_right _ _ (Nat.le_add_right _ _), Nat.add_sub_cancel_left]

/-- What has been added to a list in one place and in another can be put together in either order. -/
theorem rebase_perm {base left right : List α} (hleft : base <+: left) (hright : base <+: right) :
    (rebase id base.length left right).Perm (rebase id base.length right left) := by
  obtain ⟨added, rfl⟩ := hleft
  obtain ⟨others, rfl⟩ := hright
  simp only [rebase, List.drop_left, List.map_id, List.append_assoc]
  exact List.perm_append_comm.append_left base

end Lists

/-- What is newer than one checkpoint goes on behind another. -/
structure Renumbering where
  old : Checkpoint
  new : Checkpoint

namespace Renumbering

/-- The new place of a global. -/
def global (r : Renumbering) (id : Nat) : Nat :=
  shift r.old.globals r.new.globals id

/-- The new place of a function. -/
def function (r : Renumbering) (id : Nat) : Nat :=
  shift r.old.functions r.new.functions id

end Renumbering

/-- A value by the new places. -/
def Value.renumber (r : Renumbering) : Value → Value
  | constant x => constant x
  | parameter owner index => parameter (r.function owner) index
  | result owner index => result (r.function owner) index
  | global id => global (r.global id)
  | function id => function (r.function id)

/-- A symbol by the new places. -/
def Symbol.renumber (r : Renumbering) : Symbol → Symbol
  | global id => global (r.global id)
  | function id => function (r.function id)

/-- The end of a block by the new places. -/
def InsertPoint.renumber (r : Renumbering) (p : InsertPoint) : InsertPoint :=
  { p with function := r.function p.function }

/-- What an instruction does by the new places. -/
def Action.renumber (r : Renumbering) : Action → Action
  | compute op lhs rhs => compute op (lhs.renumber r) (rhs.renumber r)
  | ret value => ret (value.renumber r)

/-- An instruction by the new places. -/
def Instruction.renumber (r : Renumbering) (i : Instruction) : Instruction :=
  { i with action := i.action.renumber r }

/-- A function by the new places. -/
def Func.renumber (r : Renumbering) (f : Func) : Func :=
  { f with instructions := f.instructions.map (Instruction.renumber r) }

variable {r : Renumbering}

/-- A symbol is the value that it is, by whatever places. -/
theorem Symbol.value_renumber (s : Symbol) : (s.renumber r).value = s.value.renumber r := by
  cases s <;> rfl

/-- What is a double is one by other places. -/
@[simp] theorem Value.isNumeric_renumber (v : Value) : (v.renumber r).isNumeric = v.isNumeric := by
  cases v <;> rfl

/-- What ends a block does so by other places. -/
@[simp] theorem Action.isTerminator_renumber (a : Action) :
    (a.renumber r).isTerminator = a.isTerminator := by
  cases a <;> rfl

namespace Func

variable (f : Func)

/-- A block that is terminated is so by other places. -/
@[simp] theorem isTerminated_renumber (block : Block) :
    (f.renumber r).isTerminated block = f.isTerminated block := by
  unfold isTerminated
  split
  · rfl
  · rename_i index _
    simp only [renumber, List.getElem?_map]
    cases f.instructions[index]? with
    | none => rfl
    | some instruction => exact Action.isTerminator_renumber instruction.action

/-- An instruction is added to a function alike by other places. -/
theorem renumber_append (block : Nat) (wanted : Option String) (action : Action) :
    (f.append block wanted action).renumber r =
      (f.renumber r).append block wanted (action.renumber r) := by
  cases wanted <;> simp [append, renumber, Instruction.renumber]

end Func

end LambdaArith
