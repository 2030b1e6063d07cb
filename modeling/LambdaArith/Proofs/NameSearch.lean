import LambdaArith.Module.Edit
import LambdaArith.Proofs.FreeNames
import LambdaArith.Proofs.OpenFunction

/-!
# The search for a free name

Who asks for a name inside a function tries it as it is, and then with one number after the other
behind it, for as long as what is tried is taken. The search is written down here round by round.
Nothing in a round says that there will be a last one. There is, because the names that are tried
differ from each other and only so many of them can be taken.
-/

namespace LambdaArith.LocalName

/-- Where a search stands: the number that has been reached, and the name that is tried now. -/
structure Search where
  number : Nat
  name : String

namespace Search

/-- A search begins with the name that is asked for. -/
def start (base : String) : Search :=
  ⟨0, base⟩

/-- The next round tries the next number behind the name that is asked for. -/
def next (base : String) (s : Search) : Search :=
  ⟨s.number + 1, base ++ toString (s.number + 1)⟩

/-- The search goes on for so many rounds, as long as what is tried is taken, and then ends with a
name that is free. -/
inductive Ends (taken : List String) (base : String) : Search → Nat → String → Prop where
  | found {s : Search} (hfree : s.name ∉ taken) : Ends taken base s 0 s.name
  | again {s : Search} {rounds : Nat} {name : String} (htaken : s.name ∈ taken)
      (hlater : Ends taken base (s.next base) rounds name) : Ends taken base s (rounds + 1) name

variable {taken : List String} {base name : String}

/-- A search is over at once exactly if what it tries first is free. -/
theorem ends_zero_iff {s : Search} :
    Ends taken base s 0 name ↔ name = s.name ∧ s.name ∉ taken := by
  constructor
  · intro h
    cases h with
    | found hfree => exact ⟨rfl, hfree⟩
  · rintro ⟨rfl, hfree⟩
    exact .found hfree

/-- A search has a further round exactly if what it tries is taken. -/
theorem ends_succ_iff {s : Search} {rounds : Nat} :
    Ends taken base s (rounds + 1) name ↔
      s.name ∈ taken ∧ Ends taken base (s.next base) rounds name := by
  constructor
  · intro h
    cases h with
    | again htaken hlater => exact ⟨htaken, hlater⟩
  · rintro ⟨htaken, hlater⟩
    exact .again htaken hlater

/-- A search that stands at a candidate ends with the first one from there on that is free. -/
theorem ends_candidate_iff {number rounds : Nat} :
    Ends taken base ⟨number, candidate base number⟩ rounds name ↔
      name = candidate base (number + rounds) ∧ candidate base (number + rounds) ∉ taken ∧
        ∀ k < rounds, candidate base (number + k) ∈ taken := by
  induction rounds generalizing number with
  | zero =>
    rw [ends_zero_iff]
    simp
  | succ rounds ih =>
    have hnext : (⟨number, candidate base number⟩ : Search).next base =
        ⟨number + 1, candidate base (number + 1)⟩ := rfl
    have hshift : ∀ k, number + 1 + k = number + (k + 1) := by omega
    rw [ends_succ_iff, hnext, ih]
    simp only [hshift]
    constructor
    · rintro ⟨htaken, hname, hfree, hlater⟩
      refine ⟨hname, hfree, fun k hk => ?_⟩
      cases k with
      | zero => exact htaken
      | succ k => exact hlater k (by omega)
    · rintro ⟨hname, hfree, htaken⟩
      exact ⟨htaken 0 (by omega), hname, hfree, fun k hk => htaken (k + 1) (by omega)⟩

/-- A search from the beginning ends with the first candidate that is free. -/
theorem ends_start_iff {rounds : Nat} :
    Ends taken base (start base) rounds name ↔
      name = candidate base rounds ∧ candidate base rounds ∉ taken ∧
        ∀ k < rounds, candidate base k ∈ taken := by
  have hstart : start base = ⟨0, candidate base 0⟩ := rfl
  rw [hstart, ends_candidate_iff]
  simp only [Nat.zero_add]

end Search

/-- As many names are given as are asked for. -/
theorem length_reserveAll (taken wanted : List String) :
    (reserveAll taken wanted).1.length = wanted.length := by
  induction wanted generalizing taken with
  | nil => rfl
  | cons base rest ih =>
    have hrest := ih (taken ++ [firstFree taken base])
    simp only [reserveAll, reserve, List.length_cons, hrest]

/-- The names that a new function has for its parameters. -/
theorem map_fst_parameters_addFunction (m : Module) (wanted : List String) :
    ((m.addFunction wanted).2.parameters (m.addFunction wanted).1).map Prod.fst =
      (reserveAll [] wanted).1 := by
  have hnew : (m.addFunction wanted).2.functions[(m.addFunction wanted).1]? =
      some (Func.declare wanted) := List.getElem?_concat_length
  rw [Module.map_fst_parameters hnew]
  rfl

/-- Whatever names are taken, the search for a name ends, after no more rounds than there are such
names and in no other way than with the name that is given: the first candidate that is free. That
one is taken from then on, and no other. So the parameters of a new function have names that differ,
and have the names that are asked for exactly if those differ. -/
theorem search_ends_at_first_free (taken : List String) (base : String) (m : Module)
    (wanted : List String) :
    (∃ rounds ≤ taken.toFinset.card,
      (∀ n name, Search.Ends taken base (.start base) n name ↔
        n = rounds ∧ name = (reserve taken base).1) ∧
      (reserve taken base).1 = candidate base rounds ∧ candidate base rounds ∉ taken ∧
        ∀ k < rounds, candidate base k ∈ taken) ∧
    (∀ other, other ∈ (reserve taken base).2 ↔
      other ∈ taken ∨ other = (reserve taken base).1) ∧
    let given := ((m.addFunction wanted).2.parameters (m.addFunction wanted).1).map Prod.fst
    given.length = wanted.length ∧ given.Nodup ∧ (given = wanted ↔ wanted.Nodup) := by
  refine ⟨?_, fun other => ?_, ?_⟩
  · obtain ⟨rounds, hname, hfree, htaken⟩ := exists_firstFree_eq_candidate taken base
    refine ⟨rounds, le_card_of_candidates_taken htaken, fun n name => ?_, hname, hfree, htaken⟩
    rw [Search.ends_start_iff]
    constructor
    · rintro ⟨rfl, hfree', htaken'⟩
      have hge : ¬ n < rounds := fun hlt => hfree' (htaken n hlt)
      have hle : ¬ rounds < n := fun hlt => hfree (htaken' rounds hlt)
      have hsame : n = rounds := by omega
      exact ⟨hsame, by rw [hsame]; exact hname.symm⟩
    · rintro ⟨rfl, rfl⟩
      exact ⟨hname, hfree, htaken⟩
  · rw [← List.mem_singleton, ← List.mem_append]
    rfl
  · intro given
    have hgiven : given = (reserveAll [] wanted).1 := map_fst_parameters_addFunction m wanted
    obtain ⟨htaken, hdistinct⟩ := reserveAll_nodup List.nodup_nil wanted
    rw [List.nil_append] at htaken
    have hnodup : given.Nodup := by
      rw [hgiven, ← htaken]
      exact hdistinct
    refine ⟨by rw [hgiven]; exact length_reserveAll [] wanted, hnodup, ?_, fun hwanted => ?_⟩
    · intro hsame
      rw [← hsame]
      exact hnodup
    · rw [hgiven, reserveAll_of_nodup hwanted fun _ _ => List.not_mem_nil]

/-- Names that look like numbered ones are in the way: with `a` and `a1` taken the search for `a`
comes to `a2`, and a parameter `a1` behind two parameters `a` becomes `a11`. -/
theorem search_ends_at_first_free_numbered :
    (∃ rounds ≤ 3, Search.Ends ["a", "b", "a1"] "a" (.start "a") rounds "a2") ∧
      ["a", "a1", "a11"].Nodup ∧
      ((Module.empty "m").addFunction ["a", "a", "a1"]).2.parameters 0 =
        [("a", .parameter 0 0), ("a1", .parameter 0 1), ("a11", .parameter 0 2)] := by
  have hnames : ((Module.empty "m").addFunction ["a", "a", "a1"]).2.parameters 0 =
      [("a", .parameter 0 0), ("a1", .parameter 0 1), ("a11", .parameter 0 2)] := by
    decide +kernel
  obtain ⟨⟨rounds, hrounds, hends, _⟩, _, _, hnodup, _⟩ :=
    search_ends_at_first_free ["a", "b", "a1"] "a" (.empty "m") ["a", "a", "a1"]
  refine ⟨⟨rounds, hrounds, (hends _ _).mpr ⟨rfl, by decide +kernel⟩⟩, ?_, hnames⟩
  have hnew : ((Module.empty "m").addFunction ["a", "a", "a1"]).1 = 0 := rfl
  rw [hnew, hnames] at hnodup
  exact hnodup

end LambdaArith.LocalName
