import LambdaArith.Number.Numeral
import LambdaArith.Number.Text
import LambdaArith.Proofs.Patterns
import LambdaArith.Proofs.Rounding

/-!
# Numerals are read as they are written

The text of a double that is finite and not negative has digits and at most one point. It is read
as a decimal that rounds to the same double.
-/

namespace LambdaArith

namespace Numeral

variable {text whole fraction : List Char}

/-- Digits run to their end, with nothing behind them. -/
theorem run_digits (hdigits : ∀ c ∈ text, c.isDigit = true) :
    text.takeWhile Char.isDigit = text ∧ text.dropWhile Char.isDigit = [] := by
  have htake := @List.takeWhile_append_of_pos _ Char.isDigit text [] hdigits
  have hdrop := @List.dropWhile_append_of_pos _ Char.isDigit text [] hdigits
  rw [List.takeWhile_nil, List.append_nil] at htake
  rw [List.dropWhile_nil, List.append_nil] at hdrop
  exact ⟨htake, hdrop⟩

/-- Digits are read without an exponent. -/
theorem readDecimal_digits (hdigits : ∀ c ∈ text, c.isDigit = true) (hne : text ≠ []) :
    readDecimal text = some ⟨Nat.ofDigitChars 10 text 0, 0⟩ := by
  obtain ⟨htake, hdrop⟩ := run_digits hdigits
  have hclamp : clampExponent text.length (0 - (0 : Nat)) = 0 := by
    unfold clampExponent
    omega
  simp only [readDecimal, htake, hdrop, readFraction, List.append_nil, hne, if_false,
    readExponent, Option.map_some, List.length_nil, hclamp]

/-- Digits around a point are read with an exponent that is given by the place of the point. -/
theorem readDecimal_point (hwhole : ∀ c ∈ whole, c.isDigit = true)
    (hfraction : ∀ c ∈ fraction, c.isDigit = true) (hne : whole ++ fraction ≠ []) :
    readDecimal (whole ++ '.' :: fraction) =
      some ⟨Nat.ofDigitChars 10 (whole ++ fraction) 0, -fraction.length⟩ := by
  have htake : (whole ++ '.' :: fraction).takeWhile Char.isDigit = whole := by
    rw [List.takeWhile_append_of_pos hwhole, List.takeWhile_cons_of_neg (by decide),
      List.append_nil]
  have hdrop : (whole ++ '.' :: fraction).dropWhile Char.isDigit = '.' :: fraction := by
    rw [List.dropWhile_append_of_pos hwhole, List.dropWhile_cons_of_neg (by decide)]
  obtain ⟨htake', hdrop'⟩ := run_digits hfraction
  have hclamp : clampExponent (whole ++ fraction).length (0 - fraction.length) =
      -fraction.length := by
    unfold clampExponent
    rw [List.length_append]
    omega
  simp only [readDecimal, htake, hdrop, readFraction, htake', hdrop', hne, if_false,
    readExponent, Option.map_some, hclamp]

end Numeral

namespace Decimal

variable (d : Decimal)

/-- There are digits in a decimal. -/
theorem digits_ne_nil : d.digits ≠ [] :=
  Nat.toDigits_ne_nil

/-- The digits of a decimal are digits. -/
theorem isDigit_of_mem_digits {c : Char} (h : c ∈ d.digits) : c.isDigit = true :=
  Nat.isDigit_of_mem_toDigits (by decide) (by decide) h

/-- Zeros are digits. -/
theorem isDigit_of_mem_zeros {c : Char} {n : Nat} (h : c ∈ List.replicate n '0') :
    c.isDigit = true := by
  rw [List.eq_of_mem_replicate h]
  rfl

/-- A decimal is written with digits only, or with a point between digits that stands where its
exponent says. -/
theorem positional_cases :
    (0 ≤ d.exponent ∧ d.positional = d.digits ++ List.replicate d.exponent.toNat '0') ∨
      ∃ whole fraction, d.positional = whole ++ '.' :: fraction ∧
        (∀ c ∈ whole, c.isDigit = true) ∧ (∀ c ∈ fraction, c.isDigit = true) ∧ whole ≠ [] ∧
        Nat.ofDigitChars 10 (whole ++ fraction) 0 = d.coefficient ∧
        d.exponent = -fraction.length := by
  have hvalue : Nat.ofDigitChars 10 d.digits 0 = d.coefficient := Nat.ofDigitChars_ten_toDigits
  unfold positional
  split
  · rename_i hwhole
    exact .inl ⟨hwhole, rfl⟩
  · rename_i hexponent
    split
    · rename_i hpoint
      have hlength : d.point = d.digits.length + d.exponent := rfl
      refine .inr ⟨_, _, rfl, ?_, ?_, ?_, ?_, ?_⟩
      · exact fun c hc => d.isDigit_of_mem_digits (List.mem_of_mem_take hc)
      · exact fun c hc => d.isDigit_of_mem_digits (List.mem_of_mem_drop hc)
      · intro hnil
        rcases List.take_eq_nil_iff.mp hnil with hzero | hnone
        · omega
        · exact d.digits_ne_nil hnone
      · rw [List.take_append_drop, hvalue]
      · rw [List.length_drop]
        omega
    · rename_i hpoint
      have hlength : d.point = d.digits.length + d.exponent := rfl
      refine .inr ⟨['0'], List.replicate (-d.point).toNat '0' ++ d.digits, rfl, ?_, ?_, ?_, ?_, ?_⟩
      · exact fun c hc => by rw [List.mem_singleton.mp hc]; rfl
      · intro c hc
        rcases List.mem_append.mp hc with hzero | hdigit
        · exact isDigit_of_mem_zeros hzero
        · exact d.isDigit_of_mem_digits hdigit
      · exact List.cons_ne_nil _ _
      · rw [Nat.ofDigitChars_append, Nat.ofDigitChars_append, Nat.ofDigitChars_replicate_zero]
        exact hvalue
      · rw [List.length_append, List.length_replicate]
        omega

/-- A decimal is read as one that rounds to the same double. -/
theorem exists_readDecimal_positional :
    ∃ e, Numeral.readDecimal d.positional = some e ∧ e.bits = d.bits := by
  rcases d.positional_cases with ⟨hexponent, htext⟩ |
    ⟨whole, fraction, htext, hwhole, hfraction, hne, hvalue, hexponent⟩
  · have hdigits : ∀ c ∈ d.digits ++ List.replicate d.exponent.toNat '0', c.isDigit = true := by
      intro c hc
      rcases List.mem_append.mp hc with hdigit | hzero
      · exact d.isDigit_of_mem_digits hdigit
      · exact isDigit_of_mem_zeros hzero
    have hne : d.digits ++ List.replicate d.exponent.toNat '0' ≠ [] :=
      fun h => d.digits_ne_nil (List.append_eq_nil_iff.mp h).1
    rw [htext, Numeral.readDecimal_digits hdigits hne, Nat.ofDigitChars_append,
      Nat.ofDigitChars_replicate_zero]
    refine ⟨_, rfl, ?_⟩
    obtain ⟨coefficient, exponent⟩ := d
    obtain ⟨n, rfl⟩ := Int.eq_ofNat_of_zero_le hexponent
    have hvalue : Nat.ofDigitChars 10 (Nat.toDigits 10 coefficient) 0 = coefficient :=
      Nat.ofDigitChars_ten_toDigits
    have hwhole : bits ⟨10 ^ n * coefficient, 0⟩ = Binary64.nearest (10 ^ n * coefficient) 1 :=
      congrArg (Binary64.nearest · 1) (Nat.mul_one _)
    rw [Int.toNat_natCast, digits, hvalue, hwhole, Nat.mul_comm]
    rfl
  · have hdigits : whole ++ fraction ≠ [] := List.append_ne_nil_of_left_ne_nil hne fraction
    rw [htext, Numeral.readDecimal_point hwhole hfraction hdigits, hvalue, ← hexponent]
    exact ⟨d, rfl, rfl⟩

/-- The text of a decimal starts with a digit. -/
theorem exists_positional_eq_cons :
    ∃ c rest, d.positional = c :: rest ∧ c.isDigit = true := by
  rcases d.positional_cases with ⟨_, htext⟩ | ⟨whole, fraction, htext, hwhole, _, hne, _, _⟩
  · obtain ⟨c, rest, hdigits⟩ := List.exists_cons_of_ne_nil d.digits_ne_nil
    rw [hdigits] at htext
    exact ⟨c, _, htext, d.isDigit_of_mem_digits (hdigits ▸ List.mem_cons_self)⟩
  · obtain ⟨c, rest, rfl⟩ := List.exists_cons_of_ne_nil hne
    exact ⟨c, _, htext, hwhole c List.mem_cons_self⟩

end Decimal

/-- A digit has no other case. -/
theorem toLower_of_isDigit {c : Char} (h : c.isDigit = true) : c.toLower = c := by
  have hupper : ¬ (c.val ≥ 'A'.val ∧ c.val ≤ 'Z'.val) := by
    simp only [Char.isDigit, Bool.and_eq_true, decide_eq_true_eq, UInt32.le_iff_toNat_le] at h
    simp only [ge_iff_le, UInt32.le_iff_toNat_le]
    have hnine : '9'.val.toNat = 57 := rfl
    have hletter : 'A'.val.toNat = 65 := rfl
    omega
  exact dif_neg hupper

namespace Numeral

/-- A text that starts with none of the letters of the words for infinity and for what is not a
number is read as a decimal. -/
theorem readMagnitude_cons {c : Char} {rest : List Char} (hi : c.toLower ≠ 'i')
    (hn : c.toLower ≠ 'n') :
    readMagnitude (c :: rest) = (readDecimal (c :: rest)).map Decimal.bits := by
  have hword : ∀ word : String, word.toList.head? ≠ some c.toLower →
      String.ofList ((c :: rest).map Char.toLower) ≠ word := by
    rintro word hhead rfl
    rw [String.toList_ofList, List.map_cons, List.head?_cons] at hhead
    exact hhead rfl
  have hinf := hword "inf" fun h => hi (Option.some.inj h).symm
  have hinfinity := hword "infinity" fun h => hi (Option.some.inj h).symm
  have hnan := hword "nan" fun h => hn (Option.some.inj h).symm
  simp only [readMagnitude, hinf, hinfinity, hnan, or_self, if_false]

/-- A text that starts with a digit is read as a decimal. -/
theorem readMagnitude_of_isDigit {c : Char} {rest : List Char} (h : c.isDigit = true) :
    readMagnitude (c :: rest) = (readDecimal (c :: rest)).map Decimal.bits := by
  refine readMagnitude_cons ?_ ?_
  · rw [toLower_of_isDigit h]
    rintro rfl
    cases h
  · rw [toLower_of_isDigit h]
    rintro rfl
    cases h

/-- A text that starts with a digit has no sign. -/
theorem readSign_of_isDigit {c : Char} {rest : List Char} (h : c.isDigit = true) :
    readSign (c :: rest) = (false, c :: rest) := by
  unfold readSign
  split
  · rename_i heq
    cases heq
    cases h
  · rename_i heq
    cases heq
    cases h
  · rfl

end Numeral

/-- A double that is finite and not negative is written with its shortest decimal. -/
theorem sourceFloat_eq {x : Float} (hfinite : Binary64.magnitude x < Binary64.infinity)
    (hsign : Binary64.isNegative x = false) :
    sourceFloat x = String.ofList (Decimal.shortest (Binary64.magnitude x)).positional := by
  have hnumber : ¬ Binary64.infinity < Binary64.magnitude x := Nat.not_lt_of_lt hfinite
  have hless : ¬ Binary64.magnitude x = Binary64.infinity := Nat.ne_of_lt hfinite
  simp only [sourceFloat, floatText, hnumber, hless, hsign, if_false, Bool.false_eq_true,
    String.empty_append]

/-- A double that is finite and not negative is read as it is written. -/
theorem read_sourceFloat {x : Float} (hfinite : Binary64.magnitude x < Binary64.infinity)
    (hsign : Binary64.isNegative x = false) : Numeral.read (sourceFloat x) = some x := by
  obtain ⟨e, hread, hbits⟩ :=
    (Decimal.shortest (Binary64.magnitude x)).exists_readDecimal_positional
  obtain ⟨c, rest, htext, hdigit⟩ :=
    (Decimal.shortest (Binary64.magnitude x)).exists_positional_eq_cons
  rw [Decimal.bits_shortest hfinite] at hbits
  rw [htext] at hread
  rw [sourceFloat_eq hfinite hsign, htext, Numeral.read, String.toList_ofList,
    Numeral.readSign_of_isDigit hdigit]
  dsimp only
  rw [Numeral.readMagnitude_of_isDigit hdigit, hread, Option.map_some, hbits, Option.map_some,
    Binary64.toFloat_magnitude hsign]

end LambdaArith
