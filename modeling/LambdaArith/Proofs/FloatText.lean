import LambdaArith.Proofs.FreeNames
import LambdaArith.Proofs.Numerals
import LambdaArith.Proofs.Patterns
import LambdaArith.Proofs.Runs
import LambdaArith.Token.Scanner

/-!
# Doubles are told by their text

The text of a double in a module shows the digits of a decimal that rounds to it, and either a point
among them or an exponent behind them. So the decimals of equal texts round to the same double. All
that are not numbers have one text, and are one double.
-/

namespace LambdaArith

open Token

/-- The characters that doubles are written with. -/
def isFloatChar (c : Char) : Bool :=
  c.isAlphanum || c = '.' || c = '-'

/-- Digits are among the characters that doubles are written with. -/
theorem isFloatChar_of_isDigit {c : Char} (h : c.isDigit = true) : isFloatChar c = true := by
  simp [isFloatChar, Char.isAlphanum, h]

/-- An integer in digits, with a sign if it is negative. -/
def signedDigits (n : Int) : List Char :=
  (if n < 0 then ['-'] else []) ++ Nat.toDigits 10 n.natAbs

/-- There is no sign among the digits of a natural. -/
theorem minus_not_mem_toDigits (n : Nat) : '-' ∉ Nat.toDigits 10 n := by
  intro hmem
  have hdigit : '-'.isDigit = true := Nat.isDigit_of_mem_toDigits (by decide) (by decide) hmem
  cases hdigit

/-- Integers are told by their sign and their digits. -/
theorem signedDigits_inj {m n : Int} (h : signedDigits m = signedDigits n) : m = n := by
  have hm := minus_not_mem_toDigits m.natAbs
  have hn := minus_not_mem_toDigits n.natAbs
  unfold signedDigits at h
  split at h
  · split at h
    · have habs := toDigits_inj (List.append_cancel_left h)
      omega
    · rw [List.nil_append] at h
      rw [← h] at hn
      simp at hn
  · split at h
    · rw [List.nil_append] at h
      rw [h] at hm
      simp at hm
    · have habs := toDigits_inj (List.append_cancel_left h)
      omega

namespace Decimal

variable {d e : Decimal}

/-- Zeros at the end of the coefficient count as powers of ten. -/
theorem bits_mul_ten_pow (coefficient n : Nat) (exponent : Int) :
    bits ⟨coefficient * Nat.pow 10 n, exponent⟩ = bits ⟨coefficient, exponent + n⟩ := by
  induction n generalizing exponent with
  | zero => simp
  | succ n ih =>
    have hpower : Nat.pow 10 (n + 1) = Nat.pow 10 n * 10 := rfl
    have hexponent : exponent + 1 + n = exponent + (n + 1 : Nat) := by omega
    rw [hpower, ← Nat.mul_assoc, ← bits_shift, ih, hexponent]

/-- The text has digits around a point that stands where its value says. -/
structure Pointed (d : Decimal) (whole fraction : List Char) : Prop where
  text : d.marked = whole ++ '.' :: fraction
  whole_digits : ∀ c ∈ whole, c.isDigit = true
  fraction_digits : ∀ c ∈ fraction, c.isDigit = true
  whole_ne_nil : whole ≠ []
  value : bits ⟨Nat.ofDigitChars 10 (whole ++ fraction) 0, -fraction.length⟩ = d.bits

/-- A whole number with a zero behind the point has a point where its value says. -/
theorem bits_append_zero (coefficient n : Nat) :
    bits ⟨Nat.ofDigitChars 10
        (Nat.toDigits 10 coefficient ++ List.replicate n '0' ++ ['0']) 0, -1⟩ =
      bits ⟨coefficient, n⟩ := by
  have hvalue : Nat.ofDigitChars 10 (Nat.toDigits 10 coefficient) 0 = coefficient :=
    Nat.ofDigitChars_ten_toDigits
  have hzeros : List.replicate n '0' ++ ['0'] = List.replicate (n + 1) '0' := by
    rw [List.replicate_succ']
  have hexponent : (-1 : Int) + (n + 1 : Nat) = n := by omega
  rw [List.append_assoc, hzeros, Nat.ofDigitChars_append, Nat.ofDigitChars_replicate_zero, hvalue,
    Nat.mul_comm]
  exact (bits_mul_ten_pow coefficient (n + 1) (-1)).trans (by rw [hexponent])

/-- A decimal is written with a point, or with an exponent. -/
theorem marked_cases (d : Decimal) :
    (∃ whole fraction, d.Pointed whole fraction) ∨ d.marked = d.scientific := by
  by_cases hplain : d.coefficient = 0 ∨ (-3 ≤ d.point ∧ d.point ≤ 16)
  · left
    by_cases hwhole : 0 ≤ d.exponent
    · refine ⟨d.digits ++ List.replicate d.exponent.toNat '0', ['0'], ?_, ?_, ?_, ?_, ?_⟩
      · rw [marked, if_pos hplain, if_pos hwhole, positional, if_pos hwhole]
      · intro c hc
        rcases List.mem_append.mp hc with hdigit | hzero
        · exact d.isDigit_of_mem_digits hdigit
        · exact isDigit_of_mem_zeros hzero
      · intro c hc
        rw [List.mem_singleton.mp hc]
        rfl
      · simp [d.digits_ne_nil]
      · have hbits := bits_append_zero d.coefficient d.exponent.toNat
        rw [Int.toNat_of_nonneg hwhole] at hbits
        exact hbits
    · rcases d.positional_cases with ⟨hexponent, _⟩ |
        ⟨whole, fraction, htext, hdigits, hfraction, hne, hvalue, hexponent⟩
      · exact absurd hexponent hwhole
      · refine ⟨whole, fraction, ?_, hdigits, hfraction, hne, ?_⟩
        · rw [marked, if_pos hplain, if_neg hwhole, htext]
        · rw [hvalue, ← hexponent]
  · right
    rw [marked, if_neg hplain]

/-- The digits of a decimal, with a point behind the first if there are more. -/
def mantissa (d : Decimal) : List Char :=
  match d.digits with
  | [] => []
  | [c] => [c]
  | c :: cs => c :: '.' :: cs

/-- A mantissa has an exponent behind it. -/
theorem scientific_eq (d : Decimal) :
    d.scientific = d.mantissa ++ 'e' :: signedDigits (d.point - 1) := by
  rcases hdigits : d.digits with _ | ⟨c, _ | ⟨second, cs⟩⟩ <;>
    simp [scientific, mantissa, signedDigits, hdigits]

/-- A mantissa starts with a digit, and goes on with a point and digits if at all. -/
theorem mantissa_cases (d : Decimal) :
    ∃ c cs, d.digits = c :: cs ∧ c.isDigit = true ∧ (∀ x ∈ cs, x.isDigit = true) ∧
      (cs = [] ∧ d.mantissa = [c] ∨ d.mantissa = c :: '.' :: cs) := by
  obtain ⟨c, cs, hdigits⟩ := List.exists_cons_of_ne_nil d.digits_ne_nil
  have hall : ∀ x ∈ c :: cs, x.isDigit = true := by
    intro x hx
    rw [← hdigits] at hx
    exact d.isDigit_of_mem_digits hx
  refine ⟨c, cs, hdigits, hall c (by simp), fun x hx => hall x (by simp [hx]), ?_⟩
  cases cs with
  | nil => simp [mantissa, hdigits]
  | cons second cs => simp [mantissa, hdigits]

/-- A mantissa is a number without an exponent. -/
theorem isNumeric_of_mem_mantissa {d : Decimal} {x : Char} (hx : x ∈ d.mantissa) :
    isNumeric x = true := by
  obtain ⟨c, cs, _, hc, hcs, hmantissa⟩ := d.mantissa_cases
  have hchar : x.isDigit = true ∨ x = '.' := by
    rcases hmantissa with ⟨_, htext⟩ | htext
    · rw [htext, List.mem_singleton] at hx
      exact .inl (hx ▸ hc)
    · rw [htext, List.mem_cons, List.mem_cons] at hx
      rcases hx with rfl | rfl | hx
      · exact .inl hc
      · exact .inr rfl
      · exact .inl (hcs x hx)
  simpa [isNumeric] using hchar

/-- The digits of a mantissa are those of the decimal. -/
theorem filter_mantissa (d : Decimal) : d.mantissa.filter Char.isDigit = d.digits := by
  obtain ⟨c, cs, hdigits, hc, hcs, hmantissa⟩ := d.mantissa_cases
  have hfilter : cs.filter Char.isDigit = cs := List.filter_eq_self.mpr hcs
  rcases hmantissa with ⟨rfl, htext⟩ | htext
  · simp [htext, hdigits, hc]
  · simp [htext, hdigits, hc, hfilter]

/-- Decimals that are written with the same mantissa and exponent are equal. -/
theorem eq_of_scientific (h : d.scientific = e.scientific) : d = e := by
  have hmark : ∀ rest : List Char, ∀ c ∈ ('e' :: rest).head?, isNumeric c = false := by
    rintro rest c ⟨⟩
    rfl
  rw [scientific_eq, scientific_eq] at h
  -- The mantissa gives the coefficient, and its length with the exponent behind it the other part.
  obtain ⟨hmantissa, hrest⟩ := append_inj_of_stop (fun _ => isNumeric_of_mem_mantissa)
    (fun _ => isNumeric_of_mem_mantissa) (hmark _) (hmark _) h
  have hdigits : d.digits = e.digits := by
    rw [← filter_mantissa, hmantissa, filter_mantissa]
  have hcoefficient : d.coefficient = e.coefficient := toDigits_inj hdigits
  have hpoint := signedDigits_inj (List.cons.inj hrest).2
  have hlength : d.point = d.digits.length + d.exponent := rfl
  have hlength' : e.point = e.digits.length + e.exponent := rfl
  have hexponent : d.exponent = e.exponent := by
    rw [hdigits] at hlength
    omega
  cases d
  cases e
  simp_all

/-- What is written with a point shows no exponent. -/
theorem Pointed.isNumeric {whole fraction : List Char} (h : d.Pointed whole fraction) {c : Char}
    (hc : c ∈ d.marked) : isNumeric c = true := by
  rw [h.text, List.mem_append, List.mem_cons] at hc
  have hchar : c.isDigit = true ∨ c = '.' := by
    rcases hc with hc | rfl | hc
    · exact .inl (h.whole_digits c hc)
    · exact .inr rfl
    · exact .inl (h.fraction_digits c hc)
  simpa [Token.isNumeric] using hchar

/-- What is written with a point is not written with an exponent. -/
theorem Pointed.ne_scientific {whole fraction : List Char} (h : d.Pointed whole fraction) :
    d.marked ≠ e.scientific := by
  intro heq
  have hmem : 'e' ∈ d.marked := by
    rw [heq, scientific_eq]
    simp
  have hnumeric := h.isNumeric hmem
  cases hnumeric

/-- Decimals with the same text round to the same double. -/
theorem bits_eq_of_marked (h : d.marked = e.marked) : d.bits = e.bits := by
  rcases d.marked_cases with ⟨whole, fraction, hd⟩ | hd
  · rcases e.marked_cases with ⟨whole', fraction', he⟩ | he
    · have hmark : ∀ rest : List Char, ∀ c ∈ ('.' :: rest).head?, c.isDigit = false := by
        rintro rest c ⟨⟩
        rfl
      have htext := h
      rw [hd.text, he.text] at htext
      obtain ⟨hwhole, hrest⟩ := append_inj_of_stop hd.whole_digits he.whole_digits (hmark _)
        (hmark _) htext
      rw [← hd.value, ← he.value, hwhole, (List.cons.inj hrest).2]
    · exact absurd (h.trans he) hd.ne_scientific
  · rcases e.marked_cases with ⟨whole', fraction', he⟩ | he
    · exact absurd (h.symm.trans hd) he.ne_scientific
    · rw [eq_of_scientific (hd.symm.trans (h.trans he))]

/-- The text of a decimal starts with a digit. -/
theorem exists_marked_eq_cons (d : Decimal) :
    ∃ c rest, d.marked = c :: rest ∧ c.isDigit = true := by
  rcases d.marked_cases with ⟨whole, fraction, h⟩ | h
  · obtain ⟨c, rest, rfl⟩ := List.exists_cons_of_ne_nil h.whole_ne_nil
    exact ⟨c, rest ++ '.' :: fraction, h.text, h.whole_digits c (by simp)⟩
  · obtain ⟨c, cs, _, hc, _, ⟨_, htext⟩ | htext⟩ := d.mantissa_cases
    · exact ⟨c, _, by rw [h, scientific_eq, htext]; rfl, hc⟩
    · exact ⟨c, _, by rw [h, scientific_eq, htext]; rfl, hc⟩

/-- The text of a decimal has digits, points, an `e` and signs. -/
theorem isFloatChar_of_mem_marked {c : Char} (hc : c ∈ d.marked) : isFloatChar c = true := by
  have hnumeric : ∀ {c : Char}, isNumeric c = true → isFloatChar c = true := by
    intro c hc
    rw [isNumeric, Bool.or_eq_true, decide_eq_true_eq] at hc
    rcases hc with hdigit | rfl
    · exact isFloatChar_of_isDigit hdigit
    · rfl
  rcases d.marked_cases with ⟨whole, fraction, h⟩ | h
  · exact hnumeric (h.isNumeric hc)
  · rw [h, scientific_eq, List.mem_append, List.mem_cons, signedDigits, List.mem_append] at hc
    rcases hc with hc | rfl | hc | hc
    · exact hnumeric (isNumeric_of_mem_mantissa hc)
    · rfl
    · split at hc
      · rw [List.mem_singleton.mp hc]
        rfl
      · cases hc
    · exact isFloatChar_of_isDigit (Nat.isDigit_of_mem_toDigits (by decide) (by decide) hc)

end Decimal

open Binary64

/-- What is written for a magnitude up to infinity. -/
def markedMagnitude (bits : Nat) : List Char :=
  if bits = infinity then ['i', 'n', 'f'] else (Decimal.shortest bits).marked

/-- The sign of a double as it is written. -/
def signText (x : Float) : List Char :=
  if isNegative x then ['-'] else []

/-- A number is written with its sign in front of its magnitude. -/
theorem toList_moduleFloat {x : Float} (h : magnitude x ≤ infinity) :
    (moduleFloat x).toList = signText x ++ markedMagnitude (magnitude x) := by
  have hsign : (if isNegative x then "-" else "").toList = signText x := by
    unfold signText
    split
    · rfl
    · rfl
  unfold moduleFloat floatText markedMagnitude
  dsimp only
  rw [if_neg (Nat.not_lt.mpr h)]
  split
  · rw [String.toList_append, hsign]
    rfl
  · rw [String.toList_append, hsign, String.toList_ofList]

/-- What is beyond infinity is no number. -/
theorem moduleFloat_of_lt {x : Float} (h : infinity < magnitude x) : moduleFloat x = "NaN" := by
  unfold moduleFloat floatText
  dsimp only
  rw [if_pos h]

/-- The text of a magnitude starts with an `i` or with a digit. -/
theorem exists_markedMagnitude_eq_cons (bits : Nat) :
    ∃ c rest, markedMagnitude bits = c :: rest ∧ (c = 'i' ∨ c.isDigit = true) := by
  unfold markedMagnitude
  split
  · exact ⟨'i', ['n', 'f'], rfl, .inl rfl⟩
  · obtain ⟨c, rest, htext, hc⟩ := (Decimal.shortest bits).exists_marked_eq_cons
    exact ⟨c, rest, htext, .inr hc⟩

/-- There is no sign in front of a magnitude. -/
theorem head?_markedMagnitude_ne_minus {bits : Nat} :
    ∀ c ∈ (markedMagnitude bits).head?, decide (c = '-') = false := by
  obtain ⟨first, rest, htext, hfirst⟩ := exists_markedMagnitude_eq_cons bits
  intro c hc
  rw [htext, List.head?_cons, Option.mem_some] at hc
  rw [decide_eq_false_iff_not]
  rintro rfl
  rcases hfirst with rfl | hdigit
  · cases hc
  · rw [hc] at hdigit
    cases hdigit

/-- Magnitudes up to infinity are told by their text. -/
theorem markedMagnitude_inj {bits others : Nat} (hbits : bits ≤ infinity)
    (hothers : others ≤ infinity) (h : markedMagnitude bits = markedMagnitude others) :
    bits = others := by
  have hinf : ∀ d : Decimal, d.marked ≠ ['i', 'n', 'f'] := by
    intro d hd
    obtain ⟨c, rest, htext, hc⟩ := d.exists_marked_eq_cons
    rw [hd] at htext
    obtain ⟨rfl, _⟩ := List.cons.inj htext
    cases hc
  unfold markedMagnitude at h
  split at h
  · rename_i heq
    split at h
    · rename_i heq'
      exact heq.trans heq'.symm
    · exact absurd h.symm (hinf _)
  · split at h
    · exact absurd h (hinf _)
    · have hshortest := Decimal.bits_eq_of_marked h
      rwa [Decimal.bits_shortest (by omega), Decimal.bits_shortest (by omega)] at hshortest

/-- A number is not written as what is no number. -/
theorem moduleFloat_ne_of_lt {x y : Float} (hx : infinity < magnitude x)
    (hy : magnitude y ≤ infinity) : moduleFloat x ≠ moduleFloat y := by
  intro heq
  obtain ⟨first, rest, htext, hfirst⟩ := exists_markedMagnitude_eq_cons (magnitude y)
  have hlist := congrArg String.toList heq
  rw [moduleFloat_of_lt hx, toList_moduleFloat hy, htext, signText] at hlist
  split at hlist
  · cases hlist
  · obtain ⟨rfl, _⟩ := List.cons.inj hlist
    rcases hfirst with hfirst | hfirst
    · cases hfirst
    · cases hfirst

/-- Doubles are told by their text. There is one double only that is not a number. -/
theorem moduleFloat_injective {x y : Float} (h : moduleFloat x = moduleFloat y) : x = y := by
  by_cases hx : infinity < magnitude x
  · by_cases hy : infinity < magnitude y
    · refine ext_toBits (UInt64.toBitVec_inj.mp ?_)
      rw [toBits_of_infinity_lt hx, toBits_of_infinity_lt hy]
    · exact absurd h (moduleFloat_ne_of_lt hx (Nat.not_lt.mp hy))
  · by_cases hy : infinity < magnitude y
    · exact absurd h.symm (moduleFloat_ne_of_lt hy (Nat.not_lt.mp hx))
    · have hlist := congrArg String.toList h
      rw [toList_moduleFloat (Nat.not_lt.mp hx), toList_moduleFloat (Nat.not_lt.mp hy)] at hlist
      have hminus : ∀ z : Float, ∀ c ∈ signText z, decide (c = '-') = true := by
        intro z c hc
        unfold signText at hc
        split at hc
        · exact decide_eq_true (List.mem_singleton.mp hc)
        · cases hc
      obtain ⟨hsign, hmagnitude⟩ := append_inj_of_stop (hminus x) (hminus y)
        head?_markedMagnitude_ne_minus head?_markedMagnitude_ne_minus hlist
      have hnegative : isNegative x = isNegative y := by
        unfold signText at hsign
        cases hnx : isNegative x <;> cases hny : isNegative y <;> simp [hnx, hny] at hsign ⊢
      exact ext_magnitude hnegative
        (markedMagnitude_inj (Nat.not_lt.mp hx) (Nat.not_lt.mp hy) hmagnitude)

/-- Doubles are written with letters, digits, points and signs. -/
theorem isFloatChar_of_mem_moduleFloat {x : Float} {c : Char} (hc : c ∈ (moduleFloat x).toList) :
    isFloatChar c = true := by
  by_cases hx : infinity < magnitude x
  · rw [moduleFloat_of_lt hx] at hc
    have hall : "NaN".toList.all isFloatChar = true := rfl
    exact List.all_eq_true.mp hall c hc
  · rw [toList_moduleFloat (Nat.not_lt.mp hx), List.mem_append, signText, markedMagnitude] at hc
    rcases hc with hc | hc
    · split at hc
      · rw [List.mem_singleton.mp hc]
        rfl
      · cases hc
    · split at hc
      · have hall : ['i', 'n', 'f'].all isFloatChar = true := rfl
        exact List.all_eq_true.mp hall c hc
      · exact Decimal.isFloatChar_of_mem_marked hc

end LambdaArith
