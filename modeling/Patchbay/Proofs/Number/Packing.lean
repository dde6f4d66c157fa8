import Mathlib

/-!
# Rounding and packing

What holds of numbers of any format: a number with a mantissa of full length is read back from its bits,
and it is rounded to itself when there are zeros behind its mantissa. A number whose digits go beyond the
length of a mantissa is rounded to one that has that length. So rounding keeps a number finite and on its
side of zero, as long as its power fits into the bits. Such are the singles made of whole numbers of 32
bits.
-/

namespace Patchbay

open Float.Model (UnpackedFloat Format totalExponent)
open Float.Model.UnpackedFloat (Sign ExtendedMantissa roundWithAccuracy shiftToTargetExponent
  shiftToExponent)

variable {format : Format}

/-- A number of a format whose mantissa has full length, and whose power fits into the bits. -/
structure Packable (format : Format) (mantissa : Nat) (exponent : Int) : Prop where
  least : 2 ^ format.mantissaBitsWithoutImplicit ≤ mantissa
  most : mantissa < 2 ^ (format.mantissaBitsWithoutImplicit + 1)
  low : 0 < exponent + format.exponentBias + format.mantissaBitsWithoutImplicit
  high : exponent + format.exponentBias + format.mantissaBitsWithoutImplicit + 1 <
    2 ^ format.exponentBits

namespace Packable

variable {mantissa : Nat} {exponent : Int}

/-- The mantissa is not zero. -/
theorem pos (h : Packable format mantissa exponent) : 0 < mantissa :=
  Nat.lt_of_lt_of_le (Nat.two_pow_pos _) h.least

/-- The highest bit of the mantissa. -/
theorem log2_eq (h : Packable format mantissa exponent) :
    mantissa.log2 = format.mantissaBitsWithoutImplicit :=
  (Nat.log2_eq_iff h.pos.ne').mpr ⟨h.least, h.most⟩

/-- The sign is read back from the bits. -/
theorem ofBitVec_packComponents (sign : Sign) (power : BitVec format.exponentBits)
    (mantissa : BitVec format.mantissaBitsWithoutImplicit) :
    Sign.ofBitVec (UnpackedFloat.unpackSign
      (UnpackedFloat.packComponents format sign power mantissa)) = sign := by
  have hbits : UnpackedFloat.unpackSign (UnpackedFloat.packComponents format sign power mantissa) =
      sign.toBitVec := by
    ext index hindex
    obtain rfl : index = 0 := by omega
    simp +arith [UnpackedFloat.unpackSign, UnpackedFloat.packComponents, BitVec.extractLsb,
      BitVec.getElem_append]
  rw [hbits]
  cases sign <;> rfl

/-- The number is read back from its bits. -/
theorem unpack_pack (h : Packable format mantissa exponent) (sign : Sign) :
    UnpackedFloat.unpack format (UnpackedFloat.pack format (.finite sign mantissa exponent h.pos)) =
      .finite sign mantissa exponent h.pos := by
  have hlog : mantissa.log2 + 1 = format.mantissaBits := by
    rw [h.log2_eq, Format.mantissaBits, Nat.add_comm]
  obtain ⟨biased, hbiased⟩ := Int.eq_ofNat_of_zero_le h.low.le
  have hpositive : 0 < biased := by have := h.low; omega
  have hfits : biased + 1 < 2 ^ format.exponentBits := by
    have hhigh := h.high
    rw [hbiased] at hhigh
    exact_mod_cast hhigh
  have hnotInfinite : ¬ 2 ^ format.exponentBits ≤ biased + 1 := by omega
  have hpower : (BitVec.ofNat format.exponentBits biased).toNat = biased := by
    rw [BitVec.toNat_ofNat, Nat.mod_eq_of_lt (by omega)]
  have htop : BitVec.ofNat format.exponentBits biased ≠ -BitVec.ofNat format.exponentBits 1 := by
    rw [ne_eq, ← BitVec.toNat_inj, hpower, BitVec.neg_one_eq_allOnes, BitVec.toNat_allOnes]
    omega
  have hbottom : BitVec.ofNat format.exponentBits biased ≠ BitVec.ofNat format.exponentBits 0 := by
    rw [ne_eq, ← BitVec.toNat_inj, hpower, BitVec.toNat_zero]
    omega
  have hmantissa : (1#1 ++ BitVec.ofNat format.mantissaBitsWithoutImplicit mantissa).toNat =
      mantissa := by
    have hleast := h.least
    have hmost := h.most
    rw [Nat.pow_succ] at hmost
    have hrest : mantissa % 2 ^ format.mantissaBitsWithoutImplicit =
        mantissa - 2 ^ format.mantissaBitsWithoutImplicit := by
      rw [Nat.mod_eq_sub_mod hleast, Nat.mod_eq_of_lt (by omega)]
    rw [BitVec.toNat_append, ← Nat.shiftLeft_add_eq_or_of_lt (BitVec.isLt _), BitVec.toNat_ofNat,
      BitVec.toNat_ofNat, Nat.shiftLeft_eq, hrest]
    omega
  simp only [UnpackedFloat.pack, hbiased, Int.toNat_natCast, if_neg hnotInfinite, if_pos hlog,
    UnpackedFloat.unpack, UnpackedFloat.unpackMantissa_packComponents,
    UnpackedFloat.unpackExponent_packComponents, ofBitVec_packComponents, if_neg htop,
    if_neg hbottom, hpower, hmantissa]
  congr 1
  omega

end Packable

/-- Powers from the least one on are above the bias. -/
theorem minExponent_le {power : Int}
    (h : 0 < power + format.exponentBias + format.mantissaBitsWithoutImplicit) :
    format.minExponent ≤ power := by
  have hbias : (format.exponentBias : Int) + 1 = 2 ^ (format.exponentBits - 1) := by
    have hnat : format.exponentBias + 1 = 2 ^ (format.exponentBits - 1) :=
      Nat.sub_add_cancel (Nat.two_pow_pos _)
    exact_mod_cast hnat
  rw [Format.minExponent, Format.mantissaBits, ← hbias]
  omega

/-- The highest bit of a mantissa with zeros behind it. -/
theorem log2_mul_two_pow {mantissa : Nat} (hpos : 0 < mantissa) (shift : Nat) :
    (mantissa * 2 ^ shift).log2 = mantissa.log2 + shift := by
  obtain ⟨hlow, hhigh⟩ := (Nat.log2_eq_iff hpos.ne').mp rfl
  have hpower := Nat.two_pow_pos shift
  refine (Nat.log2_eq_iff (Nat.mul_pos hpos hpower).ne').mpr ⟨?_, ?_⟩
  · rw [Nat.pow_add]
    exact Nat.mul_le_mul_right _ hlow
  · rw [show mantissa.log2 + shift + 1 = mantissa.log2 + 1 + shift by omega, Nat.pow_add]
    exact Nat.mul_lt_mul_of_pos_right hhigh hpower

/-- A number of few digits may be filled up to the length of a mantissa. -/
theorem exists_fill {n bits : Nat} (hpos : 0 < n) (hfits : n < 2 ^ (bits + 1)) :
    ∃ shift ≤ bits, n.log2 + shift = bits ∧
      2 ^ bits ≤ n * 2 ^ shift ∧ n * 2 ^ shift < 2 ^ (bits + 1) := by
  have hlog : n.log2 < bits + 1 := (Nat.log2_lt hpos.ne').mpr hfits
  have hfilled : (n * 2 ^ (bits - n.log2)).log2 = bits := by
    rw [log2_mul_two_pow hpos]
    omega
  obtain ⟨hlow, hhigh⟩ :=
    (Nat.log2_eq_iff (Nat.mul_pos hpos (Nat.two_pow_pos _)).ne').mp hfilled
  exact ⟨bits - n.log2, by omega, by omega, hlow, hhigh⟩

/-! ### Exact rounding -/

/-- Zeros are shifted out of a mantissa without loss. -/
theorem shiftRight_zeros (mantissa shift : Nat) :
    ExtendedMantissa.ofMantissaAndAccuracy (mantissa * 2 ^ shift) .exact >>> shift =
      ⟨mantissa, false, false⟩ := by
  change Nat.repeat ExtendedMantissa.shiftRightOne shift _ = _
  induction shift generalizing mantissa with
  | zero => simp [ExtendedMantissa.ofMantissaAndAccuracy, Nat.repeat]
  | succ shift ih =>
    rw [Nat.repeat, Nat.pow_succ, Nat.mul_comm (2 ^ shift), ← Nat.mul_assoc, ih]
    simp [ExtendedMantissa.shiftRightOne]

namespace Packable

variable {mantissa : Nat} {exponent : Int}

/-- A mantissa with zeros behind it is shifted to its own length. -/
theorem shiftToTargetExponent_zeros (h : Packable format mantissa exponent) (shift : Nat) :
    shiftToTargetExponent format (mantissa * 2 ^ shift) (exponent - shift) .exact =
      (⟨mantissa, false, false⟩, exponent) := by
  have hleast := minExponent_le h.low
  have htarget : format.targetExponent (totalExponent (mantissa * 2 ^ shift) (exponent - shift)) =
      exponent := by
    simp only [Format.targetExponent, totalExponent, log2_mul_two_pow h.pos, h.log2_eq,
      Format.mantissaBits]
    omega
  have hshift : (exponent - (exponent - shift)).toNat = shift := by omega
  simp only [shiftToTargetExponent, htarget, shiftToExponent, hshift, shiftRight_zeros]
  congr 1
  omega

/-- A number that fits is rounded to itself. -/
theorem round_zeros (h : Packable format mantissa exponent) (sign : Sign) (shift : Nat) :
    roundWithAccuracy format sign (mantissa * 2 ^ shift) (exponent - shift) .exact =
      .finite sign mantissa exponent h.pos := by
  have hagain := h.shiftToTargetExponent_zeros 0
  rw [Nat.pow_zero, Nat.mul_one, Int.natCast_zero, Int.sub_zero] at hagain
  have hrounded : (⟨mantissa, false, false⟩ : ExtendedMantissa).roundedMantissa = mantissa := rfl
  simp only [roundWithAccuracy, h.shiftToTargetExponent_zeros shift, hrounded, hagain,
    dif_neg h.pos.ne']

/-- A number stays as it is when it is multiplied by one. -/
theorem mul_one (h : Packable format mantissa exponent) (sign : Sign) :
    UnpackedFloat.mul format (.finite sign mantissa exponent h.pos)
        (.finite .positive (2 ^ format.mantissaBitsWithoutImplicit)
          (-(format.mantissaBitsWithoutImplicit : Int)) (Nat.two_pow_pos _)) =
      .finite sign mantissa exponent h.pos := by
  have hsign : sign * Sign.positive = sign := by cases sign <;> rfl
  simp only [UnpackedFloat.mul, hsign]
  exact h.round_zeros sign format.mantissaBitsWithoutImplicit

/-- A whole number that fits into a mantissa is filled up to its length. -/
theorem ofUInt64 {n shift : Nat} (h : Packable format (n * 2 ^ shift) (-(shift : Int)))
    (hwide : n < 2 ^ 64) :
    UnpackedFloat.ofUInt64 format n.toUInt64 =
      .finite .positive (n * 2 ^ shift) (-(shift : Int)) h.pos := by
  have hpos : 0 < n := Nat.pos_of_mul_pos_right h.pos
  have hlog := h.log2_eq
  rw [log2_mul_two_pow hpos] at hlog
  have hleast := minExponent_le h.low
  have htarget : format.targetExponent (totalExponent n 0) = -(shift : Int) := by
    simp only [Format.targetExponent, totalExponent, Format.mantissaBits]
    omega
  have hvalue : n.toUInt64.toNat = n := Nat.mod_eq_of_lt hwide
  have hcompare : compare (n : Int) 0 = .gt := compare_gt_iff_gt.mpr (by omega)
  have hfill : (0 - -(shift : Int)).toNat = shift := by omega
  have hround := h.round_zeros .positive 0
  rw [Nat.pow_zero, Nat.mul_one, Int.natCast_zero, Int.sub_zero] at hround
  simp only [UnpackedFloat.ofUInt64, UnpackedFloat.ofNat, UnpackedFloat.ofInt,
    UnpackedFloat.normalize, hvalue, hcompare, Int.toNat_natCast, UnpackedFloat.round, htarget,
    UnpackedFloat.decreaseExponent, hfill, Nat.shiftLeft_eq]
  rw [Int.zero_sub]
  exact hround

end Packable

/-! ### Rounding to full length -/

/-- Shifting a mantissa to the right divides it by a power of two. -/
theorem mantissa_shiftRight (extended : ExtendedMantissa) (shift : Nat) :
    (extended >>> shift).mantissa = extended.mantissa / 2 ^ shift := by
  change (Nat.repeat ExtendedMantissa.shiftRightOne shift extended).mantissa = _
  induction shift with
  | zero => simp [Nat.repeat]
  | succ shift ih =>
    rw [Nat.repeat, ExtendedMantissa.shiftRightOne, ih, Nat.div_div_eq_div_mul, Nat.pow_succ]

/-- Rounding a mantissa adds one to it or nothing. -/
theorem roundedMantissa_cases (extended : ExtendedMantissa) :
    extended.roundedMantissa = extended.mantissa ∨
      extended.roundedMantissa = extended.mantissa + 1 := by
  unfold ExtendedMantissa.roundedMantissa UnpackedFloat.Accuracy.roundToNearestEven
  split
  · exact Or.inl rfl
  · exact Or.inl rfl
  · rcases Nat.mod_two_eq_zero_or_one extended.mantissa with heven | hodd
    · exact Or.inl (by rw [heven, Nat.add_zero])
    · exact Or.inr (by rw [hodd])
  · exact Or.inr rfl

/-- A mantissa that is long enough is shifted to full length. -/
theorem shiftToTargetExponent_eq {mantissa : Nat} {exponent : Int} {shift : Nat}
    (hlog : mantissa.log2 = format.mantissaBitsWithoutImplicit + shift)
    (hleast : format.minExponent ≤ exponent + shift) :
    (shiftToTargetExponent format mantissa exponent .exact).1.mantissa = mantissa / 2 ^ shift ∧
      (shiftToTargetExponent format mantissa exponent .exact).2 = exponent + shift := by
  have htarget : format.targetExponent (totalExponent mantissa exponent) = exponent + shift := by
    simp only [Format.targetExponent, totalExponent, Format.mantissaBits, hlog]
    omega
  have hshift : (exponent + shift - exponent).toNat = shift := by omega
  simp only [shiftToTargetExponent, htarget, shiftToExponent, hshift, mantissa_shiftRight, and_true]
  rfl

/-- A mantissa keeps its leading bits when the others are cut off. -/
theorem div_two_pow_bounds {mantissa bits shift : Nat} (hpos : 0 < mantissa)
    (hlog : mantissa.log2 = bits + shift) :
    2 ^ bits ≤ mantissa / 2 ^ shift ∧ mantissa / 2 ^ shift < 2 ^ (bits + 1) := by
  obtain ⟨hlow, hhigh⟩ := (Nat.log2_eq_iff hpos.ne').mp hlog
  have hpower := Nat.two_pow_pos shift
  refine ⟨?_, ?_⟩
  · rwa [Nat.le_div_iff_mul_le hpower, ← Nat.pow_add]
  · rwa [Nat.div_lt_iff_lt_mul hpower, ← Nat.pow_add,
      show bits + 1 + shift = bits + shift + 1 by omega]

/-- Rounding leaves a mantissa of full length as long as it is, or carries it to the next power of two. -/
theorem log2_roundedMantissa {extended : ExtendedMantissa} {bits : Nat}
    (hlow : 2 ^ bits ≤ extended.mantissa) (hhigh : extended.mantissa < 2 ^ (bits + 1)) :
    ∃ carry ≤ 1, extended.roundedMantissa.log2 = bits + carry ∧
      2 ^ carry ∣ extended.roundedMantissa := by
  have hpower := Nat.two_pow_pos bits
  have hrange : 2 ^ bits ≤ extended.roundedMantissa ∧
      extended.roundedMantissa ≤ 2 ^ (bits + 1) := by
    rcases roundedMantissa_cases extended with heq | heq <;> omega
  rcases Nat.lt_or_eq_of_le hrange.2 with hless | hcarry
  · exact ⟨0, Nat.zero_le 1, (Nat.log2_eq_iff (by omega)).mpr ⟨hrange.1, hless⟩, Nat.one_dvd _⟩
  · refine ⟨1, Nat.le_refl 1, by rw [hcarry, Nat.log2_two_pow], ?_⟩
    rw [hcarry]
    exact Nat.pow_dvd_pow 2 (Nat.le_add_left 1 bits)

/-- A number whose power is in range is rounded to one with a mantissa of full length. What is left of it
when the other bits are cut off, or the next such number, is the one; it may be carried to the next
power. -/
theorem exists_roundWithAccuracy (format : Format) (sign : Sign) {mantissa : Nat} {exponent : Int}
    {shift : Nat} (hpos : 0 < mantissa)
    (hlog : mantissa.log2 = format.mantissaBitsWithoutImplicit + shift)
    (hsmallest : 0 < exponent + shift + format.exponentBias + format.mantissaBitsWithoutImplicit)
    (hlargest : exponent + shift + format.exponentBias + format.mantissaBitsWithoutImplicit + 2 <
      2 ^ format.exponentBits) :
    ∃ (rounded carry : Nat) (h : Packable format rounded (exponent + shift + carry)),
      roundWithAccuracy format sign mantissa exponent .exact =
        .finite sign rounded (exponent + shift + carry) h.pos ∧
      (rounded * 2 ^ carry = mantissa / 2 ^ shift ∨ rounded * 2 ^ carry = mantissa / 2 ^ shift + 1) := by
  have hleast : format.minExponent ≤ exponent + shift := minExponent_le hsmallest
  -- What is left of the mantissa has full length; rounding may carry it to the next power of two.
  obtain ⟨hcut, hpower⟩ := shiftToTargetExponent_eq hlog hleast
  obtain ⟨cut, hfirst⟩ : ∃ cut, shiftToTargetExponent format mantissa exponent .exact =
      (cut, exponent + shift) := ⟨_, Prod.ext rfl hpower⟩
  simp only [hfirst] at hcut
  obtain ⟨hlow, hhigh⟩ := div_two_pow_bounds hpos hlog
  rw [← hcut] at hlow hhigh
  obtain ⟨carry, hcarry, hlogCarried, hcarried⟩ := log2_roundedMantissa hlow hhigh
  have hrounded : 0 < cut.roundedMantissa := by
    have hbits := Nat.two_pow_pos format.mantissaBitsWithoutImplicit
    rcases roundedMantissa_cases cut with heq | heq <;> omega
  obtain ⟨hfinal, hfinalPower⟩ := shiftToTargetExponent_eq hlogCarried
    (by omega : format.minExponent ≤ exponent + shift + carry)
  obtain ⟨final, hsecond⟩ : ∃ final,
      shiftToTargetExponent format cut.roundedMantissa (exponent + shift) .exact =
        (final, exponent + shift + carry) := ⟨_, Prod.ext rfl hfinalPower⟩
  simp only [hsecond] at hfinal
  obtain ⟨hfull, hmost⟩ := div_two_pow_bounds hrounded hlogCarried
  rw [← hfinal] at hfull hmost
  have hpack : Packable format final.mantissa (exponent + shift + carry) :=
    ⟨hfull, hmost, by omega, by omega⟩
  refine ⟨final.mantissa, carry, hpack, ?_, ?_⟩
  · simp only [roundWithAccuracy, hfirst, hsecond, dif_neg hpack.pos.ne']
  · rw [hfinal, Nat.div_mul_cancel hcarried, ← hcut]
    exact roundedMantissa_cases cut

/-- A whole number is rounded with zeros behind its digits, so that there are no fewer of them than a
mantissa has. -/
theorem ofScientific_nat (format : Format) {n : Nat} (hpos : 0 < n) :
    UnpackedFloat.ofScientific format n (0 : Nat) =
      roundWithAccuracy format .positive (n * 2 ^ format.mantissaBits) (-(format.mantissaBits : Int))
        .exact := by
  have hbits : (0 : Int) < 2 ^ format.exponentBits := Int.pow_pos (by decide)
  have hmantissa : n <<< format.mantissaBits * 10 ^ 0 = n * 2 ^ format.mantissaBits := by
    rw [Nat.shiftLeft_eq, Nat.pow_zero, Nat.mul_one]
  unfold UnpackedFloat.ofScientific
  rw [dif_neg hpos.ne', if_neg (by omega), if_neg (by omega), if_pos (by decide)]
  change roundWithAccuracy format .positive (n <<< format.mantissaBits * 10 ^ 0)
    (-(format.mantissaBits : Int) + 0) .exact = _
  rw [hmantissa, Int.add_zero]

/-! ### Whole numbers as singles -/

namespace Single

/-- The power of a single is in range. -/
theorem exists_round (sign : Sign) {mantissa : Nat} {exponent : Int} {shift : Nat}
    (hpos : 0 < mantissa) (hlog : mantissa.log2 = 23 + shift) (hsmallest : -149 ≤ exponent + shift)
    (hlargest : exponent + shift < 103) :
    ∃ (rounded : Nat) (power : Int) (h : Packable .binary32 rounded power),
      roundWithAccuracy .binary32 sign mantissa exponent .exact = .finite sign rounded power h.pos := by
  have hleast : 0 < exponent + shift + (127 : Nat) + (23 : Nat) := by omega
  have hmost : exponent + shift + (127 : Nat) + (23 : Nat) + 2 < (2 : Int) ^ 8 := by omega
  obtain ⟨rounded, carry, hpack, hround, -⟩ :=
    exists_roundWithAccuracy .binary32 sign hpos hlog hleast hmost
  exact ⟨rounded, exponent + shift + carry, hpack, hround⟩

/-- The single made of a number that fits is the number. -/
theorem unpack_pack {mantissa : Nat} {exponent : Int} (h : Packable .binary32 mantissa exponent)
    (sign : Sign) :
    (Float32.Model.pack (.finite sign mantissa exponent h.pos)).unpack =
      .finite sign mantissa exponent h.pos :=
  h.unpack_pack sign

/-- A whole number that fits into a mantissa has a finite single above zero. -/
theorem unpack_ofNat_of_lt {n : Nat} (hpos : 0 < n) (hsmall : n < 2 ^ 23) :
    ∃ (mantissa : Nat) (exponent : Int) (h : 0 < mantissa),
      (Float32.ofNat n).toModel.unpack = .finite .positive mantissa exponent h := by
  obtain ⟨shift, hshift, -, hlow, hhigh⟩ := exists_fill hpos (by omega : n < 2 ^ (23 + 1))
  have hpack : Packable .binary32 (n * 2 ^ shift) (-(shift : Int)) := by
    refine ⟨hlow, hhigh, ?_, ?_⟩
    · change 0 < -(shift : Int) + (127 : Nat) + (23 : Nat)
      omega
    · change -(shift : Int) + (127 : Nat) + (23 : Nat) + 1 < (2 : Int) ^ 8
      omega
  have hsame : UnpackedFloat.mul .binary32
      (.finite .positive (n * 2 ^ shift) (-(shift : Int)) hpack.pos)
      (.finite .positive (2 ^ 23) (-23) (by decide)) =
        .finite .positive (n * 2 ^ shift) (-(shift : Int)) hpack.pos := hpack.mul_one .positive
  have hone : Float32.exactlyRepresentablePowersOfTen[0].toModel.unpack =
      .finite .positive (2 ^ 23) (-23) (by decide) := rfl
  -- The number is multiplied by the power of ten that it has to be scaled by, which is one.
  refine ⟨n * 2 ^ shift, -(shift : Int), hpack.pos, ?_⟩
  change (Float32.ofScientific n false 0).toModel.unpack = _
  rw [Float32.ofScientific, dif_pos ⟨hsmall, by decide⟩]
  change (Float32.Model.pack (UnpackedFloat.mul .binary32
    (Float32.Model.pack (UnpackedFloat.ofUInt64 .binary32 n.toUInt64)).unpack _)).unpack = _
  rw [hpack.ofUInt64 (by omega), unpack_pack hpack, hone, hsame, unpack_pack hpack]

/-- So does one of 32 bits that does not fit. -/
theorem unpack_ofNat_of_le {n : Nat} (hlarge : 2 ^ 23 ≤ n) (hmost : n < 2 ^ 32) :
    ∃ (mantissa : Nat) (exponent : Int) (h : 0 < mantissa),
      (Float32.ofNat n).toModel.unpack = .finite .positive mantissa exponent h := by
  have hpos : 0 < n := by omega
  have hlog : n.log2 < 32 := (Nat.log2_lt hpos.ne').mpr hmost
  have hlogLarge : 23 ≤ n.log2 := (Nat.le_log2 hpos.ne').mpr hlarge
  have hfill : (n * 2 ^ 24).log2 = 23 + (n.log2 + 1) := by
    rw [log2_mul_two_pow hpos]
    omega
  obtain ⟨rounded, power, hpack, hround⟩ := exists_round .positive
    (Nat.mul_pos hpos (Nat.two_pow_pos _)) hfill
    (by omega : -149 ≤ (-24 : Int) + (n.log2 + 1 : Nat)) (by omega)
  have hscientific : UnpackedFloat.ofScientific .binary32 n (0 : Nat) =
      .finite .positive rounded power hpack.pos := (ofScientific_nat .binary32 hpos).trans hround
  change ∃ mantissa exponent h,
    (Float32.ofScientific n false 0).toModel.unpack = .finite .positive mantissa exponent h
  rw [Float32.ofScientific, dif_neg (by omega)]
  change ∃ mantissa exponent h, (Float32.Model.pack
    (UnpackedFloat.ofScientific .binary32 n (0 : Nat))).unpack = _
  rw [hscientific]
  exact ⟨rounded, power, hpack.pos, unpack_pack hpack .positive⟩

/-- A whole number of 32 bits that is not zero has a finite single above zero. -/
theorem unpack_ofNat {n : Nat} (hpos : 0 < n) (hmost : n < 2 ^ 32) :
    ∃ (mantissa : Nat) (exponent : Int) (h : 0 < mantissa),
      (Float32.ofNat n).toModel.unpack = .finite .positive mantissa exponent h := by
  rcases Nat.lt_or_ge n (2 ^ 23) with hsmall | hlarge
  · exact unpack_ofNat_of_lt hpos hsmall
  · exact unpack_ofNat_of_le hlarge hmost

/-- Such a single is finite. -/
theorem isFinite_ofNat {n : Nat} (hpos : 0 < n) (hmost : n < 2 ^ 32) :
    (Float32.ofNat n).isFinite = true := by
  obtain ⟨mantissa, exponent, h, hunpack⟩ := unpack_ofNat hpos hmost
  change (Float32.ofNat n).toModel.unpack.isFinite = true
  rw [hunpack]
  rfl

/-- It is above zero. -/
theorem ofNat_pos {n : Nat} (hpos : 0 < n) (hmost : n < 2 ^ 32) : Float32.ofNat n > 0.0 := by
  obtain ⟨mantissa, exponent, h, hunpack⟩ := unpack_ofNat hpos hmost
  have hzero : (0.0 : Float32).toModel.unpack = .zero .positive := rfl
  refine decide_eq_true_iff.mpr ?_
  change (0.0 : Float32).toModel.unpack.lt (Float32.ofNat n).toModel.unpack = true
  rw [hzero, hunpack]
  rfl

end Single

end Patchbay
