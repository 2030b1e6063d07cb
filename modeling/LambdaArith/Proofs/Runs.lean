/-!
# Runs and what ends them

A list is the longest run of elements of one sort and what that leaves, and the run can be told from
the whole. So two lists that are made of runs in the same way are made of the same runs. Lists that
all end in the same mark, and have it nowhere else, can be told from what they are joined to.
-/

namespace LambdaArith

variable {α : Type} {p : α → Bool} {front other rest behind : List α}

/-- The longest run in front of an element that does not belong to it is all that stands before
that element. -/
theorem takeWhile_append_of_stop (hfront : ∀ a ∈ front, p a = true)
    (hrest : ∀ a ∈ rest.head?, p a = false) : (front ++ rest).takeWhile p = front := by
  rw [List.takeWhile_append_of_pos hfront]
  cases rest with
  | nil => simp
  | cons a rest =>
    have hstop : p a = false := hrest a rfl
    simp [hstop]

/-- A list is the longest run of elements of one sort, and what that leaves. -/
theorem exists_run (p : α → Bool) (text : List α) :
    ∃ run behind, text = run ++ behind ∧ (∀ a ∈ run, p a = true) ∧
      ∀ a ∈ behind.head?, p a = false := by
  refine ⟨text.takeWhile p, text.dropWhile p, List.takeWhile_append_dropWhile.symm, ?_, ?_⟩
  · exact List.all_eq_true.mp List.all_takeWhile
  · intro a ha
    have hstop := List.head?_dropWhile_not p text
    rw [Option.mem_def.mp ha] at hstop
    simpa using hstop

/-- Runs of one sort that are ended in equal lists are equal, and so is what is behind them. -/
theorem append_inj_of_stop (hfront : ∀ a ∈ front, p a = true) (hother : ∀ a ∈ other, p a = true)
    (hrest : ∀ a ∈ rest.head?, p a = false) (hbehind : ∀ a ∈ behind.head?, p a = false)
    (h : front ++ rest = other ++ behind) : front = other ∧ rest = behind := by
  have hrun := takeWhile_append_of_stop hfront hrest
  rw [h, takeWhile_append_of_stop hother hbehind] at hrun
  rw [hrun] at h
  exact ⟨hrun.symm, List.append_cancel_left h⟩

/-- What is the same about the elements of two lists if something else is, is the same in order if
that is so. -/
theorem map_eq_of_map_eq {β γ : Type} {f g : α → β} {f' g' : α → γ} {xs ys : List α}
    (hsame : ∀ x ∈ xs, ∀ y ∈ ys, f x = g y → f' x = g' y) (h : xs.map f = ys.map g) :
    xs.map f' = ys.map g' := by
  induction xs generalizing ys with
  | nil =>
    cases ys with
    | nil => simp
    | cons y ys => simp at h
  | cons x xs ih =>
    cases ys with
    | nil => simp at h
    | cons y ys =>
      rw [List.map_cons, List.map_cons, List.cons.injEq] at h
      have hfirst := hsame x List.mem_cons_self y List.mem_cons_self h.1
      have hrest : ∀ x ∈ xs, ∀ y ∈ ys, f x = g y → f' x = g' y := fun x hx y hy =>
        hsame x (List.mem_cons_of_mem _ hx) y (List.mem_cons_of_mem _ hy)
      rw [List.map_cons, List.map_cons, hfirst, ih hrest h.2]

/-- Lists are equal if their elements are told by something that is the same in order. -/
theorem eq_of_map_eq {β : Type} {f g : α → β} {xs ys : List α}
    (hinj : ∀ x ∈ xs, ∀ y ∈ ys, f x = g y → x = y) (h : xs.map f = ys.map g) : xs = ys := by
  have hsame : xs.map id = ys.map id := map_eq_of_map_eq hinj h
  simpa using hsame

/-- The lists one behind the other, each with a mark at its end. -/
def closed (mark : α) (pieces : List (List α)) : List α :=
  pieces.flatMap fun piece => piece ++ [mark]

variable {mark : α} {pieces others : List (List α)}

/-- The first list stands in front with its mark behind it. -/
theorem closed_cons (piece : List α) (pieces : List (List α)) :
    closed mark (piece :: pieces) = piece ++ mark :: closed mark pieces := by
  simp [closed]

/-- Lists that come behind others come behind them with their marks. -/
theorem closed_append (pieces others : List (List α)) :
    closed mark (pieces ++ others) = closed mark pieces ++ closed mark others :=
  List.flatMap_append

/-- Lists with a mark at their ends are the first of some others if they are in front of them. -/
theorem exists_of_closed_append [DecidableEq α] (hpieces : ∀ piece ∈ pieces, mark ∉ piece)
    (hothers : ∀ piece ∈ others, mark ∉ piece)
    (h : closed mark pieces ++ rest = closed mark others) :
    ∃ more, others = pieces ++ more ∧ rest = closed mark more := by
  induction pieces generalizing others with
  | nil => exact ⟨others, rfl, h⟩
  | cons piece pieces ih =>
    cases others with
    | nil => simp [closed] at h
    | cons first others =>
      rw [closed_cons, closed_cons, List.append_assoc, List.cons_append] at h
      have hunmarked : ∀ {list : List α}, mark ∉ list →
          ∀ a ∈ list, decide (a ≠ mark) = true := by
        intro list hlist a ha
        have hne : a ≠ mark := fun heq => hlist (heq ▸ ha)
        simpa using hne
      have hmark : ∀ list : List α, ∀ a ∈ (mark :: list).head?, decide (a ≠ mark) = false := by
        intro list a ha
        simpa using ha.symm
      obtain ⟨rfl, hrest⟩ := append_inj_of_stop (hunmarked (hpieces piece List.mem_cons_self))
        (hunmarked (hothers first List.mem_cons_self)) (hmark _) (hmark _) h
      obtain ⟨more, rfl, hmore⟩ := ih
        (fun piece hpiece => hpieces piece (List.mem_cons_of_mem _ hpiece))
        (fun piece hpiece => hothers piece (List.mem_cons_of_mem _ hpiece))
        (List.cons.inj hrest).2
      exact ⟨more, rfl, hmore⟩

/-- Lists can be told from how they are joined with a mark at their ends. -/
theorem closed_injective [DecidableEq α] (hpieces : ∀ piece ∈ pieces, mark ∉ piece)
    (hothers : ∀ piece ∈ others, mark ∉ piece) (h : closed mark pieces = closed mark others) :
    pieces = others := by
  rw [← List.append_nil (closed mark pieces)] at h
  obtain ⟨more, rfl, hmore⟩ := exists_of_closed_append hpieces hothers h
  cases more with
  | nil => simp
  | cons first more => simp [closed] at hmore

end LambdaArith
