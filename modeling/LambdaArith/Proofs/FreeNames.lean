import LambdaArith.Module.LocalName
import Mathlib.Data.Finset.Card
import Mathlib.Data.Finset.Range

/-!
# Free names inside a function

The candidates for a name differ from each other, so one more of them than there are names taken is
always enough to find a free one. The names of a function therefore stay distinct, whoever asks for
them.
-/

namespace LambdaArith

/-- Naturals are told by their digits. -/
theorem toDigits_inj {m n : Nat} (h : Nat.toDigits 10 m = Nat.toDigits 10 n) : m = n := by
  have hm : Nat.ofDigitChars 10 (Nat.toDigits 10 m) 0 = m := Nat.ofDigitChars_ten_toDigits
  rw [h, Nat.ofDigitChars_ten_toDigits] at hm
  exact hm.symm

namespace LocalName

/-- Two numbers that are written alike are the same. -/
theorem toString_nat_injective {m n : Nat} (h : toString m = toString n) : m = n := by
  refine toDigits_inj ?_
  rw [← Nat.toList_repr, ← Nat.toList_repr]
  exact congrArg String.toList h

/-- The candidates for a name differ from each other. -/
theorem candidate_injective (base : String) : Function.Injective (candidate base) := by
  have hne (n : Nat) : base ≠ base ++ toString (n + 1) := by
    intro h
    have hempty : toString (n + 1) = "" :=
      (String.append_right_inj base).mp (h.symm.trans String.append_empty.symm)
    exact Nat.repr_ne_empty hempty
  intro m n h
  cases m with
  | zero =>
    cases n with
    | zero => rfl
    | succ n => exact absurd h (hne n)
  | succ m =>
    cases n with
    | zero => exact absurd h.symm (hne m)
    | succ n => exact toString_nat_injective ((String.append_right_inj base).mp h)

/-- No more candidates in a row are taken than there are names taken. -/
theorem le_card_of_candidates_taken {taken : List String} {base : String} {n : Nat}
    (h : ∀ k < n, candidate base k ∈ taken) : n ≤ taken.toFinset.card := by
  have hsubset : (Finset.range n).image (candidate base) ⊆ taken.toFinset := by
    intro name hname
    obtain ⟨k, hk, rfl⟩ := Finset.mem_image.mp hname
    exact List.mem_toFinset.mpr (h k (Finset.mem_range.mp hk))
  calc n = (Finset.range n).card := (Finset.card_range n).symm
    _ = ((Finset.range n).image (candidate base)).card :=
      (Finset.card_image_of_injective _ (candidate_injective base)).symm
    _ ≤ taken.toFinset.card := Finset.card_le_card hsubset

/-- Among more candidates than there are names taken, one is free. -/
theorem exists_candidate_not_mem (taken : List String) (base : String) :
    ∃ n < taken.length + 1, candidate base n ∉ taken := by
  by_contra hnone
  have hall : ∀ n < taken.length + 1, candidate base n ∈ taken := by
    intro n hn
    by_contra hfree
    exact hnone ⟨n, hn, hfree⟩
  have hcard := le_card_of_candidates_taken hall
  have hlength := taken.toFinset_card_le
  omega

/-- In front of a number of a range stand all that are smaller. -/
theorem mem_of_range_eq_append {m n k : Nat} {before behind : List Nat}
    (h : List.range m = before ++ n :: behind) (hk : k < n) : k ∈ before := by
  rw [List.range_eq_range', List.range'_eq_append_iff] at h
  obtain ⟨size, _, hbefore, hbehind⟩ := h
  have hn : n = size := by
    have hhead := congrArg List.head? hbehind
    rw [List.head?_cons, List.head?_range'] at hhead
    split at hhead
    · cases hhead
    · have hsame := Option.some.inj hhead
      omega
  rw [hbefore, List.mem_range'_1]
  omega

/-- Who asks for a name gets the first candidate for it that is not taken. -/
theorem exists_firstFree_eq_candidate (taken : List String) (base : String) :
    ∃ n, firstFree taken base = candidate base n ∧ candidate base n ∉ taken ∧
      ∀ k < n, candidate base k ∈ taken := by
  unfold firstFree
  cases hfound : (List.range (taken.length + 1)).findSome? fun n =>
      if candidate base n ∈ taken then none else some (candidate base n) with
  | none =>
    obtain ⟨n, hn, hfree⟩ := exists_candidate_not_mem taken base
    have htaken := List.findSome?_eq_none_iff.mp hfound n (List.mem_range.mpr hn)
    rw [if_neg hfree] at htaken
    cases htaken
  | some name =>
    obtain ⟨before, n, behind, hrange, hname, hbefore⟩ := List.findSome?_eq_some_iff.mp hfound
    split at hname
    · cases hname
    · rename_i hfree
      refine ⟨n, (Option.some.inj hname).symm, hfree, fun k hk => ?_⟩
      have hskipped := hbefore k (mem_of_range_eq_append hrange hk)
      by_contra htaken
      rw [if_neg htaken] at hskipped
      cases hskipped

/-- Who asks for a name gets one that is not taken. -/
theorem firstFree_not_mem (taken : List String) (base : String) :
    firstFree taken base ∉ taken := by
  obtain ⟨n, hname, hfree, _⟩ := exists_firstFree_eq_candidate taken base
  rw [hname]
  exact hfree

/-- Names stay distinct when one more is given. -/
theorem nodup_append_firstFree {taken : List String} (htaken : taken.Nodup) (base : String) :
    (taken ++ [firstFree taken base]).Nodup := by
  refine List.nodup_append.mpr ⟨htaken, List.nodup_singleton _, fun name hname other hother => ?_⟩
  have hfree := firstFree_not_mem taken base
  rw [List.mem_singleton.mp hother]
  rintro rfl
  exact hfree hname

/-- Names that are given to who ask in turn are taken from then on, and differ from each other and
from those that have been taken before. -/
theorem reserveAll_nodup {taken : List String} (htaken : taken.Nodup) (bases : List String) :
    (reserveAll taken bases).2 = taken ++ (reserveAll taken bases).1 ∧
      (reserveAll taken bases).2.Nodup := by
  induction bases generalizing taken with
  | nil => exact ⟨(List.append_nil taken).symm, htaken⟩
  | cons base rest ih =>
    obtain ⟨htail, hnodup⟩ := ih (nodup_append_firstFree htaken base)
    refine ⟨?_, hnodup⟩
    have hcons : (reserveAll taken (base :: rest)).1 =
        firstFree taken base :: (reserveAll (taken ++ [firstFree taken base]) rest).1 := rfl
    rw [hcons, List.append_cons]
    exact htail

end LocalName

end LambdaArith
