import LambdaArith.Number.Decimal

/-!
# Rounding decimals to doubles

Rounding depends only on the value of a fraction, and a double rounds to itself. So the shortest
decimal for a double, however it has been found, rounds to that double.
-/

namespace LambdaArith

namespace Binary64

/-- A power of two is positive. -/
theorem two_pow_pos (k : Nat) : 0 < Nat.pow 2 k :=
  Nat.pow_pos Nat.two_pos

/-- The units in one are at least one. -/
theorem unitsPerOne_pos : 0 < unitsPerOne :=
  two_pow_pos 1074

/-- Rounding does not depend on how a fraction is written. -/
theorem nearest_mul {k : Nat} (hk : 0 < k) (numerator denominator : Nat) :
    nearest (k * numerator) (k * denominator) = nearest numerator denominator := by
  unfold nearest
  dsimp only
  rw [Nat.mul_assoc k, Nat.mul_div_mul_left _ _ hk, Nat.mul_assoc k, Nat.mul_div_mul_left _ _ hk,
    Nat.mul_mod_mul_left, Nat.mul_left_comm 2 k]
  simp only [Nat.mul_lt_mul_left hk, Nat.mul_right_inj (Nat.ne_of_gt hk)]

/-- Zero is zero, whatever the denominator. -/
theorem nearest_zero (denominator : Nat) : nearest 0 denominator = 0 := by
  simp [nearest]

/-- A whole number of units whose last digits are zeros is not rounded. -/
theorem nearest_unitsPerOne {n shift : Nat} (hshift : n.log2 - 52 = shift)
    (hexact : n % Nat.pow 2 shift = 0) :
    nearest n unitsPerOne = min infinity (shift * fractions + n / Nat.pow 2 shift) := by
  have hpos := unitsPerOne_pos
  unfold nearest
  dsimp only
  rw [Nat.mul_div_cancel _ hpos, hshift, Nat.mul_comm n, Nat.mul_div_mul_left _ _ hpos,
    Nat.mul_mod_mul_left, hexact, Nat.mul_zero, Nat.mul_zero, if_neg]
  rintro (hlt | ⟨heq, _⟩)
  · exact Nat.not_lt_zero _ hlt
  · exact Nat.ne_of_lt (Nat.mul_pos hpos (two_pow_pos shift)) heq

/-- A number with a leading digit in a known place. -/
theorem log2_mul_two_pow {n k : Nat} (hle : fractions ≤ n) (hlt : n < 2 * fractions) :
    (n * Nat.pow 2 k).log2 = 52 + k := by
  have hpos := two_pow_pos k
  have hne : n * Nat.pow 2 k ≠ 0 := by
    exact Nat.ne_of_gt (Nat.mul_pos (Nat.lt_of_lt_of_le (two_pow_pos 52) hle) hpos)
  rw [Nat.log2_eq_iff hne, Nat.pow_add]
  constructor
  · exact Nat.mul_le_mul_right _ hle
  · have hnext : 2 ^ (52 + k + 1) = 2 * fractions * Nat.pow 2 k := by
      rw [Nat.pow_succ, Nat.pow_add]
      exact (Nat.mul_comm _ _).trans (Nat.mul_assoc _ _ _).symm
    rw [hnext]
    exact Nat.mul_lt_mul_of_pos_right hlt hpos

/-- A double rounds to itself. -/
theorem nearest_units {bits : Nat} (h : bits < infinity) :
    nearest (units bits) unitsPerOne = bits := by
  have hdiv := Nat.div_add_mod bits fractions
  have hmod : bits % fractions < fractions := Nat.mod_lt _ (two_pow_pos 52)
  unfold units
  split
  · rename_i hzero
    have hbits : bits < fractions := by
      rw [hzero, Nat.mul_zero, Nat.zero_add] at hdiv
      omega
    have hlog : bits.log2 - 52 = 0 := by
      by_cases hne : bits = 0
      · rw [hne]
        rfl
      · have hlt : bits.log2 < 52 := (Nat.log2_lt hne).mpr hbits
        omega
    rw [nearest_unitsPerOne hlog (Nat.mod_one _), Nat.zero_mul, Nat.zero_add]
    exact (congrArg (min infinity) (Nat.div_one bits)).trans (Nat.min_eq_right (Nat.le_of_lt h))
  · rename_i hnonzero
    obtain ⟨k, hk⟩ : ∃ k, bits / fractions = k + 1 := Nat.exists_eq_succ_of_ne_zero hnonzero
    rw [hk, Nat.add_sub_cancel]
    have hlog : ((fractions + bits % fractions) * Nat.pow 2 k).log2 - 52 = k := by
      rw [log2_mul_two_pow (Nat.le_add_right _ _) (by omega)]
      omega
    rw [nearest_unitsPerOne hlog (Nat.mul_mod_left _ _),
      Nat.mul_div_cancel _ (two_pow_pos k)]
    have hsum : k * fractions + (fractions + bits % fractions) = bits := by
      rw [hk, Nat.mul_succ, Nat.mul_comm] at hdiv
      omega
    rw [hsum]
    exact Nat.min_eq_right (Nat.le_of_lt h)

end Binary64

namespace Decimal

/-- No zeros at the end of the coefficient are needed. -/
theorem bits_shift (coefficient : Nat) (exponent : Int) :
    bits ⟨coefficient, exponent + 1⟩ = bits ⟨coefficient * 10, exponent⟩ := by
  unfold bits fraction
  cases exponent with
  | ofNat n =>
    have hnext : Int.ofNat n + 1 = Int.ofNat (n + 1) := rfl
    rw [hnext]
    dsimp only
    rw [Nat.mul_assoc]
    exact congrArg (fun power => Binary64.nearest (coefficient * power) 1) (Nat.pow_succ')
  | negSucc n =>
    cases n with
    | zero =>
      have hnext : Int.negSucc 0 + 1 = Int.ofNat 0 := rfl
      rw [hnext]
      have hten := Binary64.nearest_mul (k := 10) (by decide) coefficient 1
      rw [Nat.mul_comm 10 coefficient] at hten
      exact (congrArg (Binary64.nearest · 1) (Nat.mul_one coefficient)).trans hten.symm
    | succ n =>
      have hnext : Int.negSucc (n + 1) + 1 = Int.negSucc n := rfl
      rw [hnext]
      dsimp only
      have hten := Binary64.nearest_mul (k := 10) (by decide) coefficient (Nat.pow 10 (n + 1))
      rw [Nat.mul_comm 10 coefficient] at hten
      refine hten.symm.trans (congrArg (Binary64.nearest (coefficient * 10)) ?_)
      exact Nat.pow_succ'.symm

/-- A decimal of nothing is zero. -/
theorem bits_zero (exponent : Int) : bits ⟨0, exponent⟩ = 0 := by
  unfold bits fraction
  cases exponent with
  | ofNat n =>
    dsimp only
    rw [Nat.zero_mul, Binary64.nearest_zero]
  | negSucc n => exact Binary64.nearest_zero _

/-- Leaving out zeros at the end does not change the double. -/
theorem bits_reduce (d : Decimal) : d.reduce.bits = d.bits := by
  induction d using reduce.induct with
  | case1 d hzero =>
    obtain ⟨coefficient, exponent⟩ := d
    dsimp only at hzero
    rw [reduce, if_pos hzero, hzero, bits_zero, bits_zero]
  | case2 d hnonzero hten ih =>
    rw [reduce, if_neg hnonzero, if_pos hten, ih, bits_shift]
    have hcoefficient : d.coefficient / 10 * 10 = d.coefficient := by omega
    rw [hcoefficient]
  | case3 d hnonzero hten => rw [reduce, if_neg hnonzero, if_neg hten]

/-- So many tenths of tenths are as many halves of halves times fives. -/
theorem nearest_mul_five_pow (n k : Nat) :
    Binary64.nearest (n * Nat.pow 5 k) (Nat.pow 10 k) = Binary64.nearest n (Nat.pow 2 k) := by
  have hpow : Nat.pow 10 k = Nat.pow 5 k * Nat.pow 2 k := Nat.mul_pow 5 2 k
  have hpos : 0 < Nat.pow 5 k := Nat.pow_pos (by decide)
  rw [hpow, Nat.mul_comm n, Binary64.nearest_mul hpos]

/-- The exact decimal of a double rounds to it. -/
theorem bits_exact {pattern : Nat} (h : pattern < Binary64.infinity) :
    (exact pattern).bits = pattern := by
  have hexponent : (-1074 : Int) = Int.negSucc 1073 := rfl
  rw [bits, exact, hexponent, fraction]
  dsimp only
  rw [nearest_mul_five_pow]
  exact Binary64.nearest_units h

/-- The shortest decimal for a double rounds to it. -/
theorem bits_shortest {pattern : Nat} (h : pattern < Binary64.infinity) :
    (shortest pattern).bits = pattern := by
  unfold shortest
  rw [bits_reduce]
  cases hfound : (List.range 17).findSome? fun (n : Nat) =>
      (neighbours pattern (leadingPlace pattern - (n + 1))).find? fun d => d.bits = pattern with
  | none => exact bits_exact h
  | some d =>
    obtain ⟨n, _, hd⟩ := List.exists_of_findSome?_eq_some hfound
    have hbits := List.find?_some hd
    rw [decide_eq_true_eq] at hbits
    exact hbits

end Decimal

end LambdaArith
