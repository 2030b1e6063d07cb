import LambdaArith.Number.Binary64

/-!
# Doubles and their bit patterns

A double has the same bits when it is made of its own bits again. So a double whose sign bit is
clear is told by its magnitude, and a double with a finite magnitude equals itself.
-/

namespace LambdaArith.Binary64

open Float.Model Float.Model.UnpackedFloat

/-- The bits of a double as the standard lays them out. -/
abbrev Word := BitVec Format.binary64.numBits

variable {word : Word}

/-- A sign is read back from its bit. -/
theorem sign_toBitVec (bit : BitVec 1) : (Sign.ofBitVec bit).toBitVec = bit := by
  revert bit
  decide

/-- A word is made of its sign, its exponent and its fraction. -/
theorem packComponents_fields (word : Word) :
    packComponents Format.binary64 (Sign.ofBitVec (unpackSign word)) (unpackExponent word)
      (unpackMantissa word) = word := by
  have hsign : unpackSign word = word.extractLsb' 63 1 := rfl
  have hexponent : unpackExponent word = word.extractLsb' 52 11 := rfl
  have hfraction : unpackMantissa word = word.extractLsb' 0 52 := rfl
  have hupper : word.extractLsb' 63 1 ++ word.extractLsb' 52 11 = word.extractLsb' 52 12 :=
    BitVec.extractLsb'_append_extractLsb'_eq_extractLsb' rfl
  have hword : word.extractLsb' 52 12 ++ word.extractLsb' 0 52 = word.extractLsb' 0 64 :=
    BitVec.extractLsb'_append_extractLsb'_eq_extractLsb' rfl
  rw [packComponents, sign_toBitVec, hsign, hexponent, hfraction]
  calc word.extractLsb' 63 1 ++ word.extractLsb' 52 11 ++ word.extractLsb' 0 52
    _ = word.extractLsb' 52 12 ++ word.extractLsb' 0 52 := by rw [hupper]
    _ = word.extractLsb' 0 64 := hword
    _ = word := BitVec.extractLsb'_eq_self

/-- What is put together from the fields of a word is the word. -/
theorem packComponents_eq {exponent : BitVec 11} {fraction : BitVec 52}
    (hexponent : exponent = unpackExponent word) (hfraction : fraction = unpackMantissa word) :
    packComponents Format.binary64 (Sign.ofBitVec (unpackSign word)) exponent fraction = word := by
  rw [hexponent, hfraction]
  exact packComponents_fields word

/-- A part of a word is made of its own number. -/
theorem ofNat_toNat {width : Nat} (part : BitVec width) : BitVec.ofNat width part.toNat = part := by
  rw [BitVec.ofNat_toNat, BitVec.setWidth_eq]

/-- A leading one in front of a fraction. -/
theorem toNat_one_append (fraction : BitVec 52) :
    (1#1 ++ fraction).toNat = fractions + fraction.toNat := by
  rw [BitVec.toNat_append, Nat.or_comm]
  exact (Nat.or_two_pow_eq_add_of_lt fraction.isLt).trans (Nat.add_comm _ _)

/-- Packing a number that is too small for a leading one. -/
theorem pack_subnormal (sign : Sign) {fraction : Nat} {exponent : Int} (hpos : 0 < fraction)
    (hlt : fraction < fractions) (hexponent : exponent = -1074) :
    UnpackedFloat.pack Format.binary64 (.finite sign fraction exponent hpos) =
      packComponents Format.binary64 sign 0 (BitVec.ofNat 52 fraction) := by
  have hbiased : (exponent + (Format.binary64.exponentBias : Nat) +
      (Format.binary64.mantissaBitsWithoutImplicit : Nat)).toNat = 1 := by
    rw [hexponent]
    rfl
  have hlog : ¬ fraction.log2 + 1 = Format.binary64.mantissaBits := by
    have hless : fraction.log2 < 52 := (Nat.log2_lt (Nat.ne_of_gt hpos)).mpr hlt
    have hbits : Format.binary64.mantissaBits = 53 := rfl
    omega
  unfold UnpackedFloat.pack
  dsimp only
  rw [hbiased, if_neg (by decide), if_neg hlog]
  rfl

/-- Packing a number with a leading one. -/
theorem pack_normal (sign : Sign) {mantissa biased : Nat} {exponent : Int} (hpos : 0 < mantissa)
    (hle : fractions ≤ mantissa) (hlt : mantissa < 2 * fractions)
    (hexponent : exponent = biased - 1075) (hbiased : biased < 2047) :
    UnpackedFloat.pack Format.binary64 (.finite sign mantissa exponent hpos) =
      packComponents Format.binary64 sign (BitVec.ofNat 11 biased) (BitVec.ofNat 52 mantissa) := by
  have hback : (exponent + (Format.binary64.exponentBias : Nat) +
      (Format.binary64.mantissaBitsWithoutImplicit : Nat)).toNat = biased := by
    have hbias : (Format.binary64.exponentBias : Int) = 1023 := rfl
    have hfraction : (Format.binary64.mantissaBitsWithoutImplicit : Int) = 52 := rfl
    omega
  have hlog : mantissa.log2 + 1 = Format.binary64.mantissaBits := by
    have hless : mantissa.log2 < 53 := (Nat.log2_lt (Nat.ne_of_gt hpos)).mpr hlt
    have hmore : 52 ≤ mantissa.log2 := (Nat.le_log2 (Nat.ne_of_gt hpos)).mpr hle
    have hbits : Format.binary64.mantissaBits = 53 := rfl
    omega
  have hroom : ¬ 2 ^ Format.binary64.exponentBits ≤ biased + 1 := by
    have hexponents : 2 ^ Format.binary64.exponentBits = 2048 := rfl
    omega
  unfold UnpackedFloat.pack
  dsimp only
  rw [hback, if_neg hroom, if_pos hlog]

/-- A word without a payload that is not canonical is packed as it has been unpacked. -/
theorem pack_unpack (hvalid : Format.binary64.Valid word) :
    UnpackedFloat.pack Format.binary64 (UnpackedFloat.unpack Format.binary64 word) = word := by
  have hfraction := (unpackMantissa word).isLt
  unfold UnpackedFloat.unpack
  dsimp only
  by_cases hlast : unpackExponent word = -1#11
  · by_cases hzero : unpackMantissa word = 0#52
    · rw [if_pos hlast, if_pos hzero]
      exact packComponents_eq hlast.symm hzero.symm
    · rw [if_pos hlast, if_neg hzero]
      exact (hvalid.eq_packedNaN hlast hzero).symm
  · by_cases hfirst : unpackExponent word = 0#11
    · by_cases hzero : unpackMantissa word = 0#52
      · rw [if_neg hlast, if_pos hfirst, dif_pos hzero]
        exact packComponents_eq hfirst.symm hzero.symm
      · rw [if_neg hlast, if_pos hfirst, dif_neg hzero,
          pack_subnormal _ _ hfraction (by rw [hfirst]; rfl)]
        exact packComponents_eq hfirst.symm (ofNat_toNat _)
    · have hless : (unpackExponent word).toNat < 2047 := by
        have hne : (unpackExponent word).toNat ≠ 2047 :=
          fun heq => hlast (BitVec.eq_of_toNat_eq heq)
        have hlt : (unpackExponent word).toNat < 2048 := (unpackExponent word).isLt
        omega
      have hmantissa := toNat_one_append (unpackMantissa word)
      have hbound : (unpackMantissa word).toNat < fractions := hfraction
      have hbias : (Format.binary64.exponentBias : Int) = 1023 := rfl
      rw [if_neg hlast, if_neg hfirst, pack_normal _ _ _ _ _ hless]
      · refine packComponents_eq (ofNat_toNat _) (BitVec.eq_of_toNat_eq ?_)
        have hmodulus : 2 ^ 52 = fractions := rfl
        rw [BitVec.toNat_ofNat, hmantissa, hmodulus, Nat.add_mod_left, Nat.mod_eq_of_lt hbound]
      · omega
      · omega
      · omega

/-- Doubles are told by their bits. -/
theorem ext_toBits {x y : Float} (h : x.toBits = y.toBits) : x = y := by
  obtain ⟨⟨bits, hvalid⟩⟩ := x
  obtain ⟨⟨others, hothers⟩⟩ := y
  have hbits : bits = others := h
  subst hbits
  rfl

/-- A double is made of its own bits. -/
theorem ofBits_toBits (x : Float) : Float.ofBits x.toBits = x :=
  ext_toBits (congrArg UInt64.ofBitVec (pack_unpack x.toModel.valid))

/-- A double whose sign bit is clear is told by its magnitude. -/
theorem toFloat_magnitude {x : Float} (h : isNegative x = false) :
    toFloat false (magnitude x) = x := by
  have hlt : x.toBits.toNat < signBit := Nat.not_le.mp (of_decide_eq_false h)
  unfold toFloat magnitude
  rw [Nat.mod_eq_of_lt hlt, if_neg Bool.false_ne_true, UInt64.ofNat_toNat, ofBits_toBits]

/-- The exponent of a word, as part of its pattern. -/
theorem toNat_unpackExponent (word : Word) :
    (unpackExponent word).toNat = word.toNat / fractions % 2048 := by
  rw [unpackExponent, BitVec.toNat_cast, BitVec.extractLsb_toNat, Nat.shiftRight_eq_div_pow]
  rfl

/-- The fraction of a word, as part of its pattern. -/
theorem toNat_unpackMantissa (word : Word) :
    (unpackMantissa word).toNat = word.toNat % fractions := by
  rw [unpackMantissa, BitVec.toNat_cast, BitVec.extractLsb_toNat, Nat.shiftRight_zero]
  rfl

/-- Doubles are told by their sign and their magnitude. -/
theorem ext_magnitude {x y : Float} (hsign : isNegative x = isNegative y)
    (hmagnitude : magnitude x = magnitude y) : x = y := by
  have hx := x.toBits.toNat_lt
  have hy := y.toBits.toNat_lt
  have hbit : signBit = 9223372036854775808 := rfl
  rw [isNegative, isNegative, decide_eq_decide, hbit] at hsign
  rw [magnitude, magnitude, hbit] at hmagnitude
  have hbits : x.toBits.toNat = y.toBits.toNat := by omega
  exact ext_toBits (UInt64.toNat_inj.mp hbits)

/-- What is beyond infinity has the bits of the one double that is not a number. -/
theorem toBits_of_infinity_lt {x : Float} (h : infinity < magnitude x) :
    x.toBits.toBitVec = packedNaN Format.binary64 := by
  have hlt := x.toBits.toNat_lt
  have hinfinity : infinity = 9218868437227405312 := rfl
  have hfractions : fractions = 4503599627370496 := rfl
  have hsign : signBit = 9223372036854775808 := rfl
  rw [magnitude, hinfinity, hsign] at h
  refine x.toModel.valid.eq_packedNaN ?_ ?_
  · refine BitVec.eq_of_toNat_eq ((toNat_unpackExponent _).trans ?_)
    rw [hfractions]
    change x.toBits.toNat / 4503599627370496 % 2048 = 2047
    omega
  · intro hzero
    have hfraction : x.toBits.toNat % fractions = 0 :=
      (toNat_unpackMantissa _).symm.trans (congrArg BitVec.toNat hzero)
    rw [hfractions] at hfraction
    omega

/-- The patterns of numbers fit into the bits of a double. -/
theorem toNat_ofNat_of_le {bits : Nat} (h : bits ≤ infinity) :
    (UInt64.ofNat bits).toNat = bits := by
  have hinfinity : infinity = 9218868437227405312 := rfl
  have hsize : UInt64.size = 18446744073709551616 := rfl
  exact UInt64.toNat_ofNat_of_lt' (by omega)

/-- A pattern of a number is a double without a sign. -/
theorem toBits_toFloat {bits : Nat} (h : bits ≤ infinity) :
    (toFloat false bits).toBits = UInt64.ofNat bits := by
  have hinfinity : infinity = 9218868437227405312 := rfl
  have hfractions : fractions = 4503599627370496 := rfl
  let word : Word := (UInt64.ofNat bits).toBitVec
  have hword : word.toNat = bits := toNat_ofNat_of_le h
  have hvalid : Format.binary64.Valid word := by
    refine ⟨fun hexponent hfraction => (hfraction ?_).elim⟩
    have hlast : word.toNat / fractions % 2048 = 2047 :=
      (toNat_unpackExponent word).symm.trans (congrArg BitVec.toNat hexponent)
    refine BitVec.eq_of_toNat_eq ((toNat_unpackMantissa word).trans ?_)
    rw [hword, hfractions] at *
    rw [BitVec.toNat_zero]
    omega
  exact congrArg UInt64.ofBitVec (pack_unpack hvalid)

/-- A pattern of a number is the magnitude of its double. -/
theorem magnitude_toFloat {bits : Nat} (h : bits ≤ infinity) :
    magnitude (toFloat false bits) = bits := by
  have hinfinity : infinity = 9218868437227405312 := rfl
  have hsign : signBit = 9223372036854775808 := rfl
  rw [magnitude, toBits_toFloat h, toNat_ofNat_of_le h, hsign]
  omega

/-- The sign bit of a pattern of a number is clear. -/
theorem isNegative_toFloat {bits : Nat} (h : bits ≤ infinity) :
    isNegative (toFloat false bits) = false := by
  have hinfinity : infinity = 9218868437227405312 := rfl
  have hsign : signBit = 9223372036854775808 := rfl
  rw [isNegative, toBits_toFloat h, toNat_ofNat_of_le h, hsign,
    decide_eq_false_iff_not]
  omega

/-- What is a number compares as equal to itself. -/
theorem compare_self {number : UnpackedFloat} (h : number ≠ .notANumber) :
    number.compare number = some .eq := by
  cases number with
  | notANumber => exact absurd rfl h
  | infinity sign => cases sign <;> rfl
  | zero sign => rfl
  | finite sign mantissa exponent hpos =>
    have hequal : (compare exponent exponent).then (compare mantissa mantissa) = .eq := by simp
    cases sign with
    | positive => exact congrArg some hequal
    | negative => exact congrArg (fun order => some order.swap) hequal

/-- A word with an exponent that is not the last one stands for a number. -/
theorem unpack_ne_notANumber (hexponent : unpackExponent word ≠ -1#11) :
    UnpackedFloat.unpack Format.binary64 word ≠ .notANumber := by
  unfold UnpackedFloat.unpack
  dsimp only
  rw [if_neg hexponent]
  by_cases hfirst : unpackExponent word = 0#11
  · by_cases hzero : unpackMantissa word = 0#52
    · rw [if_pos hfirst, dif_pos hzero]
      exact UnpackedFloat.noConfusion
    · rw [if_pos hfirst, dif_neg hzero]
      exact UnpackedFloat.noConfusion
  · rw [if_neg hfirst]
    exact UnpackedFloat.noConfusion

/-- A double with a finite magnitude equals itself. -/
theorem beq_self {x : Float} (h : magnitude x < infinity) : (x == x) = true := by
  let word : Word := x.toBits.toBitVec
  have hexponent : unpackExponent word ≠ -1#11 := by
    intro heq
    have hnumber : x.toBits.toNat / fractions % 2048 = 2047 :=
      (toNat_unpackExponent word).symm.trans (congrArg BitVec.toNat heq)
    have hmagnitude : x.toBits.toNat % signBit < 2047 * fractions := h
    have hfractions : fractions = 4503599627370496 := rfl
    have hsign : signBit = 9223372036854775808 := rfl
    rw [hfractions] at hnumber hmagnitude
    rw [hsign] at hmagnitude
    omega
  have hunpack : x.toModel.unpack ≠ .notANumber := unpack_ne_notANumber hexponent
  have hbeq : (x == x) = (x.toModel.unpack.compare x.toModel.unpack == some .eq) := rfl
  rw [hbeq, compare_self hunpack]
  rfl

end LambdaArith.Binary64
