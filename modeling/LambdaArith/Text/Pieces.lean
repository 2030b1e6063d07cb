/-!
# Cutting a text at a character

Lines, the parts of a path and those of a triple are what stands between the occurrences of
one character. There is always one piece more than there are occurrences, and pieces may be
empty.
-/

namespace LambdaArith

/-- The pieces of a list between the occurrences of a character. -/
def cutAt (separator : Char) : List Char → List (List Char)
  | [] => [[]]
  | c :: rest =>
    if c = separator then [] :: cutAt separator rest
    else
      match cutAt separator rest with
      | [] => [[c]]
      | piece :: others => (c :: piece) :: others

/-- The pieces of a text between the occurrences of a character. -/
def pieces (separator : Char) (text : String) : List String :=
  (cutAt separator text.toList).map String.ofList

/-- Where nothing is to be cut, there is one piece. -/
theorem cutAt_of_not_mem {separator : Char} {text : List Char} (h : separator ∉ text) :
    cutAt separator text = [text] := by
  induction text with
  | nil => rfl
  | cons c rest ih =>
    rw [List.mem_cons, not_or] at h
    rw [cutAt, if_neg (Ne.symm h.1), ih h.2]

/-- No piece has the character at which it has been cut. -/
theorem not_mem_of_mem_cutAt {separator : Char} {text piece : List Char}
    (h : piece ∈ cutAt separator text) : separator ∉ piece := by
  induction text generalizing piece with
  | nil =>
    rw [cutAt, List.mem_singleton] at h
    rw [h]
    exact List.not_mem_nil
  | cons c rest ih =>
    rw [cutAt] at h
    split at h
    · rcases List.mem_cons.mp h with rfl | hrest
      · exact List.not_mem_nil
      · exact ih hrest
    · rename_i hc
      split at h
      · rw [List.mem_singleton.mp h, List.mem_singleton]
        exact Ne.symm hc
      · rename_i first others hcut
        rcases List.mem_cons.mp h with rfl | hothers
        · have hfirst : separator ∉ first := ih (hcut ▸ List.mem_cons_self)
          rw [List.mem_cons, not_or]
          exact ⟨Ne.symm hc, hfirst⟩
        · exact ih (hcut ▸ List.mem_cons_of_mem _ hothers)

/-- Where nothing is to be cut, there is one piece. -/
theorem pieces_of_not_mem {separator : Char} {text : String} (h : separator ∉ text.toList) :
    pieces separator text = [text] := by
  rw [pieces, cutAt_of_not_mem h, List.map_singleton, String.ofList_toList]

/-- No piece has the character at which it has been cut. -/
theorem not_mem_of_mem_pieces {separator : Char} {text piece : String}
    (h : piece ∈ pieces separator text) : separator ∉ piece.toList := by
  obtain ⟨characters, hmem, rfl⟩ := List.mem_map.mp h
  rw [String.toList_ofList]
  exact not_mem_of_mem_cutAt hmem

end LambdaArith
