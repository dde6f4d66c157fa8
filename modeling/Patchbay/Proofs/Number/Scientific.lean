import Patchbay.Proofs.Number.Nearest

/-!
# Decimals as doubles

The double made of a decimal is the one that is nearest to it. A small decimal is the product or the
quotient of two doubles of just the values of its digits and of its power of ten; a decimal that is not
small is multiplied out, or divided, before it is rounded. Either way there is one rounding, of the number
that the decimal stands for.
-/

namespace Patchbay

open Float.Model (UnpackedFloat Format totalExponent)
open Float.Model.UnpackedFloat (Sign Accuracy ExtendedMantissa roundWithAccuracy)

namespace Double

variable {value : Binary}

/-! ### Doubles and their values -/

/-- A number below those of full length is read back from its bits. -/
theorem unpack_pack_small {mantissa : Nat} (hpos : 0 < mantissa) (hsmall : mantissa < 2 ^ 52)
    (sign : Sign) :
    (Float.Model.pack (.finite sign mantissa (-1074) hpos)).unpack =
      .finite sign mantissa (-1074) hpos := by
  have hlog : mantissa.log2 < 52 := (Nat.log2_lt hpos.ne').mpr hsmall
  have hfraction : (BitVec.ofNat 52 mantissa).toNat = mantissa := by
    rw [BitVec.toNat_ofNat, Nat.mod_eq_of_lt hsmall]
  have hsome : BitVec.ofNat 52 mantissa ≠ 0#52 := by
    rw [ne_eq, ← BitVec.toNat_inj, hfraction]
    exact hpos.ne'
  have hpacked : UnpackedFloat.pack .binary64 (.finite sign mantissa (-1074) hpos) =
      UnpackedFloat.packComponents .binary64 sign 0#11 (BitVec.ofNat 52 mantissa) := by
    have hpower : ((-1074 : Int) + (1023 : Nat) + (52 : Nat)).toNat = 1 := by decide
    have hbits : mantissa.log2 + 1 ≠ Format.binary64.mantissaBits := by
      change mantissa.log2 + 1 ≠ 53
      omega
    simp only [UnpackedFloat.pack]
    rw [if_neg, if_neg hbits]
    change ¬ 2 ^ 11 ≤ ((-1074 : Int) + (1023 : Nat) + (52 : Nat)).toNat + 1
    rw [hpower]
    decide
  change UnpackedFloat.unpack .binary64 (UnpackedFloat.pack .binary64 _) = _
  rw [hpacked]
  simp only [UnpackedFloat.unpack, UnpackedFloat.unpackMantissa_packComponents,
    UnpackedFloat.unpackExponent_packComponents, Packable.ofBitVec_packComponents]
  rw [if_neg (by decide), if_pos trivial, dif_neg hsome]
  simp only [hfraction]
  rfl

/-- Every number that a double can have is read back from its bits. -/
theorem unpack_pack_canonical (h : value.Canonical) (hpos : 0 < value.mantissa)
    (hmost : value.exponent ≤ 971) (sign : Sign) :
    (Float.Model.pack (.finite sign value.mantissa value.exponent hpos)).unpack =
      .finite sign value.mantissa value.exponent hpos := by
  by_cases hfull : 2 ^ 52 ≤ value.mantissa
  · exact unpack_pack (packable hfull h.fits h.least hmost) sign
  · obtain ⟨negative, mantissa, exponent⟩ := value
    obtain rfl : exponent = -1074 := h.normal.resolve_left hfull
    exact unpack_pack_small hpos (Nat.lt_of_not_le hfull) sign

/-- The bits of a number are told by its value. -/
theorem ofBits?_inj {first second : Nat} (hfirst : first < 2 ^ 64) (hsecond : second < 2 ^ 64)
    (h : Binary.ofBits? .double first = some value)
    (hsame : Binary.ofBits? .double second = some value) : first = second := by
  unfold Binary.ofBits? at h hsame
  simp only [show BinaryFormat.double.topPower = 2047 from rfl,
    show BinaryFormat.double.fractionBits = 52 from rfl,
    show BinaryFormat.double.exponentBits = 11 from rfl,
    show BinaryFormat.double.leadingBit = 2 ^ 52 from rfl,
    show BinaryFormat.double.lowest = -1074 from rfl, Nat.shiftRight_eq_div_pow] at h hsame
  have hsign : ∀ {bit : Nat} {negative : Bool}, (bit == 1) = negative →
      (bit = 1 ↔ negative = true) := by
    rintro bit negative rfl
    exact beq_iff_eq.symm
  split at h
  · cases h
  split at hsame
  · cases hsame
  split at h <;> split at hsame <;>
    · obtain rfl := Option.some.inj h
      have hparts := Binary.mk.inj (Option.some.inj hsame)
      have hbit := hsign hparts.1
      rw [beq_iff_eq] at hbit
      omega

/-- The exponent of a double is one that fits into its bits. -/
theorem exponent_le {x : Float} (h : Binary.ofDouble? x = some value) : value.exponent ≤ 971 := by
  unfold Binary.ofDouble? Binary.ofBits? at h
  simp only [show BinaryFormat.double.topPower = 2047 from rfl,
    show BinaryFormat.double.lowest = -1074 from rfl] at h
  split at h
  · cases h
  split at h <;>
    · obtain rfl := Option.some.inj h
      dsimp only
      omega

/-- Doubles of the same bits are the same. -/
theorem eq_of_toBits {x y : Float} (h : x.toBits.toNat = y.toBits.toNat) : x = y := by
  have hbits : x.toBits = y.toBits := UInt64.toNat_inj.mp h
  obtain ⟨⟨bits, valid⟩⟩ := x
  obtain ⟨⟨other, otherValid⟩⟩ := y
  obtain rfl : bits = other := hbits
  rfl

/-- Doubles of the same value are the same. -/
theorem eq_of_ofDouble? {x y : Float} (hx : Binary.ofDouble? x = some value)
    (hy : Binary.ofDouble? y = some value) : x = y :=
  eq_of_toBits (ofBits?_inj x.toBits.toNat_lt y.toBits.toNat_lt hx hy)

/-- What has no value is infinite, on one side or the other, or the one NaN. -/
theorem eq_special {x : Float} (h : Binary.ofDouble? x = none) :
    x = 1.0 / 0.0 ∨ x = -(1.0 / 0.0) ∨ x = 0.0 / 0.0 := by
  have hpower : x.toBits.toNat / 2 ^ 52 % 2048 = 2047 := by
    unfold Binary.ofDouble? Binary.ofBits? at h
    simp only [show BinaryFormat.double.topPower = 2047 from rfl,
      show BinaryFormat.double.fractionBits = 52 from rfl, Nat.shiftRight_eq_div_pow] at h
    split at h
    · assumption
    · split at h <;> cases h
  have hwide := x.toBits.toNat_lt
  by_cases hfraction : x.toBits.toNat % 2 ^ 52 = 0
  · have hplus : (1.0 / 0.0 : Float).toBits.toNat = 2047 * 2 ^ 52 := by decide +kernel
    have hminus : (-(1.0 / 0.0) : Float).toBits.toNat = 2 ^ 63 + 2047 * 2 ^ 52 := by decide +kernel
    rcases lt_or_ge x.toBits.toNat (2 ^ 63) with hsign | hsign
    · exact Or.inl (eq_of_toBits (by omega))
    · exact Or.inr (Or.inl (eq_of_toBits (by omega)))
  · have htop := (unpackExponent_eq x.toBits.toBitVec).2.mpr (by
      rw [Nat.shiftRight_eq_div_pow]
      exact hpower)
    have hsome := mt (unpackMantissa_eq_zero x.toBits.toBitVec).mp hfraction
    have hnan := congrArg BitVec.toNat (x.toModel.valid.eq_packedNaN htop hsome)
    exact Or.inr (Or.inr (eq_of_toBits (hnan.trans (by decide +kernel))))

/-- A double other than zero is told by what it unpacks to. -/
theorem ofDouble?_of_unpack {x : Float} (hpos : 0 < value.mantissa)
    (h : x.toModel.unpack =
      .finite (if value.negative then .negative else .positive) value.mantissa value.exponent hpos) :
    Binary.ofDouble? x = some value := by
  have hstands := stands x
  rw [h] at hstands
  generalize Binary.ofDouble? x = found at hstands
  obtain ⟨negative, mantissa, exponent⟩ := value
  generalize hsign : (if negative then Sign.negative else Sign.positive) = sign at hstands
  cases hstands with
  | finite other =>
    cases negative <;> cases other <;> first | rfl | cases hsign

end Double

/-! ### Products and quotients -/

namespace Binary.Nearest

variable {value : Binary} {x : ℚ} {m n : Nat} {e f : Int}

/-- What is rounded to a double other than zero is within the range of doubles. -/
theorem bounds (h : value.Nearest x) (hcanonical : value.Canonical) (hpos : 0 < value.mantissa)
    (hmost : value.exponent ≤ 971) : (2 : ℚ) ^ (-1075 : Int) ≤ x ∧ x < 2 ^ (1024 : Int) := by
  have hleast := hcanonical.least
  refine ⟨?_, (h.lt_two_zpow hcanonical).trans_le (zpow_le_zpow_right₀ one_le_two (by omega))⟩
  have hone : (1 : ℚ) ≤ value.mantissa := by exact_mod_cast hpos
  have hhalf : 2 ^ (-1 : Int) ≤ x / 2 ^ value.exponent := by
    have hlow := h.low
    have hreach := value.reachBelow_le
    norm_num
    linarith
  rw [le_div_iff₀ (by positivity), ← zpow_add₀ two_ne_zero] at hhalf
  exact (zpow_le_zpow_right₀ one_le_two (by omega)).trans hhalf

/-- A product no shorter than a mantissa is rounded to the double nearest to it. -/
theorem mul_eq (h : value.Nearest x) (hcanonical : value.Canonical) (hpos : 0 < value.mantissa)
    (hm : 0 < m) (hn : 0 < n) (hx : x = m * 2 ^ e * (n * 2 ^ f)) (hlong : 2 ^ 52 ≤ m * n) :
    UnpackedFloat.mul .binary64 (.finite .positive m e hm) (.finite .positive n f hn) =
      .finite .positive value.mantissa value.exponent hpos := by
  have hexact : x / 2 ^ (e + f) = (m * n : Nat) := by
    rw [div_eq_iff (by positivity), hx, zpow_add₀ two_ne_zero]
    push_cast
    ring
  refine h.roundWithAccuracy_eq hcanonical hpos .positive ?_ (Or.inr hlong)
  rw [hexact]
  exact CutOff.exact (m * n)

/-- A quotient is rounded to the double nearest to it. -/
theorem div_eq (h : value.Nearest x) (hcanonical : value.Canonical) (hpos : 0 < value.mantissa)
    (hm : 0 < m) (hn : 0 < n) (hx : x = m * 2 ^ e / (n * 2 ^ f)) :
    UnpackedFloat.div .binary64 (.finite .positive m e hm) (.finite .positive n f hn) =
      .finite .positive value.mantissa value.exponent hpos := by
  obtain ⟨target, htarget⟩ : ∃ target, min (e - f) (Format.binary64.targetExponent
      (totalExponent m e - totalExponent n f)) = target := ⟨_, rfl⟩
  have htotal : Format.binary64.targetExponent (totalExponent m e - totalExponent n f) =
      max ((m.log2 : Int) + 1 + e - (n.log2 + 1 + f) - 53) (-1074) := rfl
  obtain ⟨shift, hshift⟩ : ∃ shift : Nat, e - f = target + shift :=
    ⟨(e - f - target).toNat, by omega⟩
  have hexact : x / 2 ^ target = ((m * 2 ^ shift : Nat) : ℚ) / n := by
    have hpower : (2 : ℚ) ^ e = 2 ^ f * 2 ^ target * 2 ^ shift := by
      rw [show e = f + target + shift by omega, zpow_add₀ two_ne_zero, zpow_add₀ two_ne_zero,
        zpow_natCast]
    have hsome : (n : ℚ) ≠ 0 := Nat.cast_ne_zero.mpr hn.ne'
    rw [hx, hpower]
    push_cast
    field_simp
  -- The quotient has enough bits, or as many as there are down to the smallest double.
  have hlong : target ≤ -1074 ∨ 2 ^ 52 ≤ m * 2 ^ shift / n := by
    by_cases hleast : target ≤ -1074
    · exact Or.inl hleast
    · refine Or.inr ((Nat.le_div_iff_mul_le hn).mpr ?_)
      calc 2 ^ 52 * n ≤ 2 ^ 52 * 2 ^ (n.log2 + 1) := Nat.mul_le_mul_left _ Nat.lt_log2_self.le
        _ = 2 ^ (52 + (n.log2 + 1)) := (Nat.pow_add ..).symm
        _ ≤ 2 ^ (m.log2 + shift) := Nat.pow_le_pow_right (by decide) (by omega)
        _ = 2 ^ m.log2 * 2 ^ shift := Nat.pow_add ..
        _ ≤ m * 2 ^ shift := Nat.mul_le_mul_right _ (Nat.log2_self_le hm.ne')
  have hamount : (e - f - target).toNat = shift := by omega
  have hsign : Sign.positive / Sign.positive = .positive := rfl
  simp only [UnpackedFloat.div, UnpackedFloat.divCore, htarget, hamount, Nat.shiftLeft_eq, hsign]
  refine h.roundWithAccuracy_eq hcanonical hpos .positive ?_ hlong
  rw [hexact]
  exact CutOff.quotient (m * 2 ^ shift) hn

end Binary.Nearest

/-! ### Decimals -/

namespace Double

variable {value : Binary} {digits : Nat} {exponent : Int}

/-- A positive number that is whole, as a double unpacks to it. -/
theorem unpack_of_ofDouble? {x : Float} (h : Binary.ofDouble? x = some value)
    (hpos : 0 < value.mantissa) : x.toModel.unpack =
      .finite (if value.negative then .negative else .positive) value.mantissa value.exponent hpos := by
  have hstands := stands x
  rw [h] at hstands
  generalize x.toModel.unpack = unpacked at hstands
  cases hstands with
  | zero => exact absurd hpos (Nat.lt_irrefl 0)
  | finite => rfl

/-- The powers of ten of which there is a table are doubles of just their value. -/
theorem unpack_powersOfTen {power : Nat} (h : power ≤ 22)
    (hsize : power < Float.exactlyRepresentablePowersOfTen.size) :
    ∃ (m : Nat) (e : Int) (hm : 0 < m),
      Float.exactlyRepresentablePowersOfTen[power].toModel.unpack = .finite .positive m e hm ∧
      2 ^ 52 ≤ m ∧ (m : ℚ) * 2 ^ e = 10 ^ power := by
  have htable : ∀ index : Fin 23,
      (Binary.ofDouble? Float.exactlyRepresentablePowersOfTen[index]).any fun value =>
        !value.negative && decide (2 ^ 52 ≤ value.mantissa) && decide (-52 ≤ value.exponent) &&
          value.mantissa * 2 ^ (value.exponent + 52).toNat == 10 ^ index.val * 2 ^ 52 := by
    decide +kernel
  obtain ⟨value, hvalue, hchecks⟩ :=
    (Option.any_eq_true _ _).mp (htable ⟨power, Nat.lt_succ_of_le h⟩)
  simp only [Bool.and_eq_true, Bool.not_eq_true', decide_eq_true_eq, beq_iff_eq] at hchecks
  obtain ⟨⟨⟨hsign, hfull⟩, hleast⟩, hmagnitude⟩ := hchecks
  have hpos : 0 < value.mantissa := Nat.lt_of_lt_of_le (Nat.two_pow_pos 52) hfull
  have hunpack := unpack_of_ofDouble? hvalue hpos
  rw [hsign] at hunpack
  refine ⟨_, _, hpos, hunpack, hfull, ?_⟩
  obtain ⟨shift, hshift⟩ := Int.eq_ofNat_of_zero_le (by omega : 0 ≤ value.exponent + 52)
  rw [hshift, Int.toNat_natCast] at hmagnitude
  have hcast : (value.mantissa : ℚ) * 2 ^ shift = 10 ^ power * 2 ^ 52 := by exact_mod_cast hmagnitude
  rw [show value.exponent = shift - (52 : Nat) by omega, zpow_sub₀ two_ne_zero, zpow_natCast,
    zpow_natCast, ← mul_div_assoc, hcast, mul_div_assoc, div_self (by positivity), mul_one]

/-- A number of few digits has a double of just its value. -/
theorem unpack_toFloat {n : Nat} (hpos : 0 < n) (hsmall : n < 2 ^ 53) :
    ∃ (shift : Nat) (h : Packable .binary64 (n * 2 ^ shift) (-(shift : Int))),
      n.toUInt64.toFloat.toModel.unpack =
        .finite .positive (n * 2 ^ shift) (-(shift : Int)) h.pos := by
  obtain ⟨shift, hshift, -, hlow, hhigh⟩ := exists_fill hpos hsmall
  have hpack := packable hlow hhigh (by omega : -1074 ≤ -(shift : Int)) (by omega)
  refine ⟨shift, hpack, ?_⟩
  change (Float.Model.pack (UnpackedFloat.ofUInt64 .binary64 n.toUInt64)).unpack = _
  rw [hpack.ofUInt64 (by omega), unpack_pack hpack]

/-- Powers of ten with their signs. -/
theorem ten_zpow_natCast (power : Nat) : (10 : ℚ) ^ (power : Int) = (10 ^ power : Nat) := by
  rw [zpow_natCast]
  push_cast
  rfl

/-- A decimal whose double is neither zero nor infinite has a power of ten within reach. -/
theorem exponent_bounds (h : value.Nearest (digits * 10 ^ exponent)) (hcanonical : value.Canonical)
    (hpos : 0 < value.mantissa) (hmost : value.exponent ≤ 971) (hdigits : 0 < digits) :
    exponent ≤ 2048 ∧ -(2048 + digits.log2 : Int) ≤ exponent := by
  obtain ⟨hlow, hhigh⟩ := h.bounds hcanonical hpos hmost
  rcases le_or_gt 0 exponent with hsign | hsign
  · have hone : (1 : ℚ) ≤ digits := by exact_mod_cast hdigits
    have hpower : (2 : ℚ) ^ exponent ≤ digits * 10 ^ exponent := by
      calc (2 : ℚ) ^ exponent ≤ 10 ^ exponent :=
            zpow_le_zpow_left₀ hsign (by norm_num) (by norm_num)
        _ ≤ digits * 10 ^ exponent := le_mul_of_one_le_left (by positivity) hone
    have hless := Binary.lt_of_two_zpow hpower hhigh
    omega
  · obtain ⟨power, rfl⟩ := Int.exists_eq_neg_ofNat hsign.le
    have hlog : (digits : ℚ) < 2 ^ (digits.log2 + 1 : Int) := by
      exact_mod_cast (Nat.lt_log2_self : digits < 2 ^ (digits.log2 + 1))
    have hpower : (digits : ℚ) * 10 ^ (-(power : Int)) < 2 ^ (digits.log2 + 1 + -power : Int) := by
      calc (digits : ℚ) * 10 ^ (-(power : Int)) ≤ digits * 2 ^ (-(power : Int)) := by
            rw [zpow_neg, zpow_neg, zpow_natCast, zpow_natCast]
            gcongr
            norm_num
        _ < 2 ^ (digits.log2 + 1 : Int) * 2 ^ (-(power : Int)) :=
            mul_lt_mul_of_pos_right hlog (by positivity)
        _ = 2 ^ (digits.log2 + 1 + -power : Int) := (zpow_add₀ two_ne_zero _ _).symm
    have hless := Binary.lt_of_two_zpow hlow hpower
    omega

/-- A decimal is rounded to the double nearest to it. -/
theorem ofScientific_eq (h : value.Nearest (digits * 10 ^ exponent)) (hcanonical : value.Canonical)
    (hpos : 0 < value.mantissa) (hmost : value.exponent ≤ 971) (hdigits : 0 < digits) :
    UnpackedFloat.ofScientific .binary64 digits exponent =
      .finite .positive value.mantissa value.exponent hpos := by
  obtain ⟨hlarge, hsmall⟩ := exponent_bounds h hcanonical hpos hmost hdigits
  unfold UnpackedFloat.ofScientific
  rw [dif_neg hdigits.ne', if_neg, if_neg]
  · split
    · next hsign =>
      obtain ⟨power, rfl⟩ := Int.eq_ofNat_of_zero_le hsign
      have hten := Nat.pow_pos (n := power) (by decide : 0 < 10)
      refine h.mul_eq hcanonical hpos _ _ ?_ ?_
      · rw [Nat.shiftLeft_eq, ten_zpow_natCast]
        change _ = (((digits * 2 ^ 53 : Nat) : ℚ) * 2 ^ (-53 : Int)) * ((10 ^ power : Nat) * 2 ^ (0 : Int))
        norm_num
        ring
      · rw [Nat.shiftLeft_eq]
        change 2 ^ 52 ≤ digits * 2 ^ 53 * 10 ^ power
        calc 2 ^ 52 ≤ 1 * 2 ^ 53 * 1 := by norm_num
          _ ≤ digits * 2 ^ 53 * 10 ^ power := by gcongr <;> omega
    · next hsign =>
      obtain ⟨power, rfl⟩ := Int.exists_eq_neg_ofNat (Int.le_of_lt (Int.not_le.mp hsign))
      refine h.div_eq hcanonical hpos _ _ ?_
      rw [zpow_neg, ten_zpow_natCast, Int.neg_neg, Int.toNat_natCast, zpow_zero, mul_one, mul_one,
        div_eq_mul_inv]
  · change ¬ exponent < -((2 : Int) ^ 11 + digits.log2)
    norm_num
    omega
  · change ¬ exponent > (2 : Int) ^ 11
    norm_num
    omega

/-- The double made of a decimal is the one that is nearest to it. -/
theorem unpack_ofScientific (h : value.Nearest (digits * 10 ^ exponent))
    (hcanonical : value.Canonical) (hpos : 0 < value.mantissa) (hmost : value.exponent ≤ 971)
    (hdigits : 0 < digits) :
    (Float.ofScientific digits (exponent < 0) exponent.natAbs).toModel.unpack =
      .finite .positive value.mantissa value.exponent hpos := by
  have hpacked := unpack_pack_canonical hcanonical hpos hmost .positive
  unfold Float.ofScientific
  split
  · next hsmall =>
    obtain ⟨shift, hdigitsPack, hdigitsUnpack⟩ := unpack_toFloat hdigits hsmall.1
    have hsize : exponent.natAbs < Float.exactlyRepresentablePowersOfTen.size :=
      Nat.lt_succ_of_le hsmall.2
    obtain ⟨m, e, hm, hpower, hfull, hvalue⟩ := unpack_powersOfTen hsmall.2 hsize
    have hexact : (digits : ℚ) = (digits * 2 ^ shift : Nat) * 2 ^ (-(shift : Int)) := by
      rw [zpow_neg, zpow_natCast]
      push_cast
      rw [mul_assoc, mul_inv_cancel₀ (by positivity), mul_one]
    dsimp only
    generalize Float.exactlyRepresentablePowersOfTen[exponent.natAbs] = tens at hpower ⊢
    split
    · next hsign =>
      have hquotient : (digits * 10 ^ exponent : ℚ) =
          (digits * 2 ^ shift : Nat) * 2 ^ (-(shift : Int)) / (m * 2 ^ e) := by
        obtain ⟨power, rfl⟩ := Int.exists_eq_neg_ofNat (of_decide_eq_true hsign).le
        rw [hvalue, ← hexact, Int.natAbs_neg, Int.natAbs_natCast, zpow_neg, zpow_natCast,
          div_eq_mul_inv]
      change (Float.Model.pack (UnpackedFloat.div .binary64 _ _)).unpack = _
      rw [hdigitsUnpack, hpower, h.div_eq hcanonical hpos _ _ hquotient, hpacked]
    · next hsign =>
      have hproduct : (digits * 10 ^ exponent : ℚ) =
          (digits * 2 ^ shift : Nat) * 2 ^ (-(shift : Int)) * (m * 2 ^ e) := by
        obtain ⟨power, rfl⟩ := Int.eq_ofNat_of_zero_le (by simpa using hsign : 0 ≤ exponent)
        rw [hvalue, ← hexact, Int.natAbs_natCast, zpow_natCast]
      have hlong : 2 ^ 52 ≤ digits * 2 ^ shift * m :=
        Nat.le_trans hfull (Nat.le_mul_of_pos_left m hdigitsPack.pos)
      change (Float.Model.pack (UnpackedFloat.mul .binary64 _ _)).unpack = _
      rw [hdigitsUnpack, hpower, h.mul_eq hcanonical hpos _ _ hproduct hlong, hpacked]
  · have hsigned : (if decide (exponent < 0) = true then Int.negOfNat exponent.natAbs
        else Int.ofNat exponent.natAbs) = exponent := by
      simp only [decide_eq_true_eq, Int.ofNat_eq_natCast, Int.negOfNat_eq]
      split <;> omega
    simp only [hsigned]
    change (Float.Model.pack (UnpackedFloat.ofScientific .binary64 digits exponent)).unpack = _
    rw [ofScientific_eq h hcanonical hpos hmost hdigits, hpacked]

end Double

end Patchbay
