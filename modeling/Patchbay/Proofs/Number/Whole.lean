import Patchbay.Proofs.Number.Packing
import Patchbay.Proofs.Number.Units

/-!
# Whole numbers among the doubles

An integer whose digits fit into a mantissa, but for zeros at the end, has a double of just its value.
The whole numbers next to a double are such integers, so rounding a double to an integer and going back
to a double loses nothing but the fraction, or what is beyond 64 bits. Rounding down is below the same
whole numbers as the double itself, and rounding up is above the same ones.
-/

namespace Patchbay

open Float.Model (UnpackedFloat)
open Float.Model.UnpackedFloat (Sign)

namespace Double

/-! ### Integers as doubles -/

/-- A mantissa of full length with a power in the range of doubles. -/
theorem packable {mantissa : Nat} {exponent : Int} (hlow : 2 ^ 52 ≤ mantissa)
    (hhigh : mantissa < 2 ^ 53) (hleast : -1074 ≤ exponent) (hmost : exponent ≤ 971) :
    Packable .binary64 mantissa exponent := by
  refine ⟨hlow, hhigh, ?_, ?_⟩
  · change 0 < exponent + (1023 : Nat) + (52 : Nat)
    omega
  · change exponent + (1023 : Nat) + (52 : Nat) + 1 < (2 : Int) ^ 11
    omega

/-- The double made of such a number is the number. -/
theorem unpack_pack {mantissa : Nat} {exponent : Int} (h : Packable .binary64 mantissa exponent)
    (sign : Sign) :
    (Float.Model.pack (.finite sign mantissa exponent h.pos)).unpack =
      .finite sign mantissa exponent h.pos :=
  h.unpack_pack sign

/-- A number of few digits as a double. -/
theorem unpack_ofNat_small {n : Nat} (hpos : 0 < n) (hsmall : n < 2 ^ 53) :
    ∃ (shift : Nat) (h : Packable .binary64 (n * 2 ^ shift) (-(shift : Int))), shift ≤ 52 ∧
      (Float.ofNat n).toModel.unpack = .finite .positive (n * 2 ^ shift) (-(shift : Int)) h.pos := by
  obtain ⟨shift, hshift, -, hlow, hhigh⟩ := exists_fill hpos hsmall
  have hpack := packable hlow hhigh (by omega : -1074 ≤ -(shift : Int)) (by omega)
  refine ⟨shift, hpack, hshift, ?_⟩
  have hsame : UnpackedFloat.mul .binary64
      (.finite .positive (n * 2 ^ shift) (-(shift : Int)) hpack.pos)
      (.finite .positive (2 ^ 52) (-52) (by decide)) =
        .finite .positive (n * 2 ^ shift) (-(shift : Int)) hpack.pos := hpack.mul_one .positive
  have hone : Float.exactlyRepresentablePowersOfTen[0].toModel.unpack =
      .finite .positive (2 ^ 52) (-52) (by decide) := rfl
  change (Float.ofScientific n false 0).toModel.unpack = _
  rw [Float.ofScientific, dif_pos ⟨hsmall, by decide⟩]
  change (Float.Model.pack (UnpackedFloat.mul .binary64
    (Float.Model.pack (UnpackedFloat.ofUInt64 .binary64 n.toUInt64)).unpack _)).unpack = _
  rw [hpack.ofUInt64 (by omega), unpack_pack hpack, hone, hsame, unpack_pack hpack]

/-- A number with zeros at the end as a double. -/
theorem unpack_ofNat_large {m shift : Nat} (h : Packable .binary64 m shift) (hshift : 0 < shift) :
    (Float.ofNat (m * 2 ^ shift)).toModel.unpack = .finite .positive m shift h.pos := by
  have hpos : 0 < m * 2 ^ shift := Nat.mul_pos h.pos (Nat.two_pow_pos shift)
  have hbig : 2 ^ 53 ≤ m * 2 ^ shift := by
    calc 2 ^ 53 = 2 ^ 52 * 2 ^ 1 := rfl
      _ ≤ m * 2 ^ shift := Nat.mul_le_mul h.least (Nat.pow_le_pow_right (by decide) hshift)
  have hscientific : UnpackedFloat.ofScientific .binary64 (m * 2 ^ shift) (0 : Nat) =
      .finite .positive m shift h.pos := by
    have hmantissa : m * 2 ^ shift * 2 ^ 53 = m * 2 ^ (shift + 53) := by rw [Nat.pow_add, Nat.mul_assoc]
    have hexponent : -((53 : Nat) : Int) = shift - ((shift + 53 : Nat) : Int) := by omega
    rw [← h.round_zeros .positive (shift + 53), ← hmantissa, ← hexponent]
    exact ofScientific_nat .binary64 hpos
  change (Float.ofScientific (m * 2 ^ shift) false 0).toModel.unpack = _
  rw [Float.ofScientific, dif_neg (by omega)]
  change (Float.Model.pack
    (UnpackedFloat.ofScientific .binary64 (m * 2 ^ shift) (0 : Nat))).unpack = _
  rw [hscientific, unpack_pack h]

end Double

/-- A number with no more digits than a mantissa has, but for zeros at the end. -/
def Binary.Short (n : Nat) : Prop := ∃ mantissa shift, mantissa < 2 ^ 53 ∧ n = mantissa * 2 ^ shift

/-- Powers of two are short. -/
theorem Binary.short_of_two_pow {n : Nat} (shift : Nat) (h : n = 2 ^ shift) : Short n :=
  ⟨1, shift, by decide, by rw [h, Nat.one_mul]⟩

namespace Double

/-- A short number of 64 bits has a double of just its value. -/
theorem unpack_ofNat {n : Nat} (hshort : Binary.Short n) (hpos : 0 < n) (hmost : n ≤ 2 ^ 63) :
    ∃ (m : Nat) (exponent : Int) (h : Packable .binary64 m exponent),
      (Float.ofNat n).toModel.unpack = .finite .positive m exponent h.pos ∧
      m * 2 ^ (exponent + 1074).toNat = n * Binary.unit := by
  by_cases hsmall : n < 2 ^ 53
  · obtain ⟨shift, hpack, hshift, hunpack⟩ := unpack_ofNat_small hpos hsmall
    refine ⟨_, _, hpack, hunpack, ?_⟩
    rw [Binary.unit, Nat.mul_assoc, ← Nat.pow_add]
    congr 2
    omega
  · obtain ⟨mantissa, shift, hfits, rfl⟩ := hshort
    obtain ⟨fill, hfill, -, hlow, hhigh⟩ := exists_fill (Nat.pos_of_mul_pos_right hpos) hfits
    have hlarger : fill < shift := by
      by_contra hle
      have hpow : mantissa * 2 ^ shift ≤ mantissa * 2 ^ fill :=
        Nat.mul_le_mul_left _ (Nat.pow_le_pow_right (by decide) (by omega))
      omega
    have hsplit : mantissa * 2 ^ shift = mantissa * 2 ^ fill * 2 ^ (shift - fill) := by
      rw [Nat.mul_assoc, ← Nat.pow_add]
      congr 2
      omega
    rw [hsplit] at hmost ⊢
    have hless : shift - fill ≤ 971 := by
      by_contra hmore
      have hpow : 2 ^ 52 * 2 ^ 12 ≤ mantissa * 2 ^ fill * 2 ^ (shift - fill) :=
        Nat.mul_le_mul hlow (Nat.pow_le_pow_right (by decide) (by omega))
      omega
    have hpack := packable hlow hhigh (by omega : -1074 ≤ ((shift - fill : Nat) : Int)) (by omega)
    refine ⟨_, _, hpack, unpack_ofNat_large hpack (by omega), ?_⟩
    rw [Binary.unit, Nat.mul_assoc _ (2 ^ (shift - fill)), ← Nat.pow_add]
    congr 2

/-- The double is finite and has the value of an integer. -/
def Holds (x : Float) (k : Int) : Prop :=
  ∃ value, Binary.ofDouble? x = some value ∧ value.units = k * Binary.unit

/-- The double made of a short integer of 64 bits has its value. -/
theorem holds_ofInt {k : Int} (hshort : Binary.Short k.natAbs) (hmost : k.natAbs ≤ 2 ^ 63) :
    Holds (Float.ofInt k) k := by
  cases k with
  | ofNat n =>
    cases n with
    | zero =>
      refine ⟨⟨false, 0, -1074⟩, by decide +kernel, ?_⟩
      rw [Binary.units_zero]
      exact (Int.zero_mul _).symm
    | succ n =>
      obtain ⟨m, exponent, hpack, hunpack, hvalue⟩ :=
        unpack_ofNat hshort (Nat.succ_pos n) hmost
      obtain ⟨value, hfound, hunits⟩ := exists_of_unpack hunpack
      refine ⟨value, hfound, ?_⟩
      rw [hunits, hvalue]
      rfl
  | negSucc n =>
    have hshort : Binary.Short (n + 1) := hshort
    obtain ⟨m, exponent, hpack, hunpack, hvalue⟩ := unpack_ofNat hshort (Nat.succ_pos n) hmost
    have hneg : (Float.ofInt (.negSucc n)).toModel.unpack =
        .finite .negative m exponent hpack.pos := by
      change (Float.Model.pack (Float.ofNat (n + 1)).toModel.unpack.neg).unpack = _
      rw [hunpack]
      exact unpack_pack hpack .negative
    obtain ⟨value, hfound, hunits⟩ := exists_of_unpack hneg
    refine ⟨value, hfound, ?_⟩
    rw [hunits, hvalue, Sign.apply, Int.negSucc_eq, Nat.cast_mul, Int.neg_mul, Nat.cast_add,
      Nat.cast_one]

end Double

namespace Binary

/-! ### Whole numbers next to a value -/

variable {value : Binary}

/-- A value whose exponent is not below zero is a whole number. -/
theorem wholePart_of_nonneg (h : 0 ≤ value.exponent) :
    value.isWhole = true ∧ value.wholePart = value.mantissa * 2 ^ value.exponent.toNat ∧
      value.size = value.wholePart * unit := by
  have hpart : value.wholePart = value.mantissa * 2 ^ value.exponent.toNat := by
    rw [Binary.wholePart, if_pos h, Nat.shiftLeft_eq]
  refine ⟨by simp [isWhole, h], hpart, ?_⟩
  rw [hpart, size, unit, Nat.mul_assoc, ← Nat.pow_add]
  congr 2
  omega

/-- A value whose exponent is below zero has digits of its mantissa behind the point, some or all. What
these are worth is counted in parts of one. -/
theorem wholePart_of_neg (hleast : -1074 ≤ value.exponent) (h : value.exponent < 0) :
    ∃ digits parts : Nat, 0 < digits ∧ 0 < parts ∧ unit = 2 ^ digits * parts ∧
      value.size = value.mantissa * parts ∧ value.wholePart = value.mantissa / 2 ^ digits ∧
      (value.isWhole = true ↔ value.mantissa % 2 ^ digits = 0) := by
  have hneg : ¬ 0 ≤ value.exponent := by omega
  refine ⟨(-value.exponent).toNat, 2 ^ (value.exponent + 1074).toNat, by omega, Nat.two_pow_pos _,
    ?_, rfl, ?_, by simp [isWhole, hneg, Nat.one_shiftLeft]⟩
  · rw [unit, ← Nat.pow_add]
    congr 1
    omega
  · rw [Binary.wholePart, if_neg hneg, Nat.shiftRight_eq_div_pow]

/-- A value is less than one above its whole part, and equal to it if it is a whole number. Its whole
part is short, and so is the number that follows it if it is no whole number. -/
theorem Canonical.wholePart (h : value.Canonical) :
    value.wholePart * unit ≤ value.size ∧ value.size < (value.wholePart + 1) * unit ∧
      (value.isWhole = true ↔ value.size = value.wholePart * unit) ∧
      Short value.wholePart ∧ (value.isWhole = false → Short (value.wholePart + 1)) := by
  rcases lt_or_ge value.exponent 0 with hexponent | hexponent
  · obtain ⟨digits, parts, hdigits, hparts, hunit, hsize, hpart, hwhole⟩ :=
      wholePart_of_neg h.least hexponent
    have hsmall : value.mantissa / 2 ^ digits < 2 ^ 52 := by
      have htwo : 2 ^ 1 ≤ 2 ^ digits := Nat.pow_le_pow_right (by decide) hdigits
      have hfits := h.fits
      exact Nat.div_lt_of_lt_mul (by omega)
    have hdivide := Nat.div_add_mod value.mantissa (2 ^ digits)
    have hmod := Nat.mod_lt value.mantissa (Nat.two_pow_pos digits)
    rw [hwhole, hsize, hpart, hunit, ← Nat.mul_assoc, ← Nat.mul_assoc]
    refine ⟨Nat.mul_le_mul_right _ ?_, Nat.mul_lt_mul_of_pos_right ?_ hparts, ?_,
      ⟨_, 0, by omega, (Nat.mul_one _).symm⟩, fun _ => ⟨_, 0, by omega, (Nat.mul_one _).symm⟩⟩
    · rw [Nat.mul_comm]
      omega
    · rw [Nat.add_mul, Nat.mul_comm]
      omega
    · rw [Nat.mul_left_inj hparts.ne', Nat.mul_comm]
      omega
  · obtain ⟨hwhole, hpart, hsize⟩ := wholePart_of_nonneg hexponent
    have hpos := unit_pos
    rw [hsize, hwhole]
    refine ⟨Nat.le_refl _, ?_, by simp, ⟨_, _, h.fits, hpart⟩, by simp⟩
    rw [Nat.add_mul]
    omega

/-- The floor of a value is the last whole number that is not above it, and is short. -/
theorem Canonical.floor (h : value.Canonical) :
    value.floor * unit ≤ value.units ∧ value.units < (value.floor + 1) * unit ∧
      Short value.floor.natAbs := by
  obtain ⟨hle, hlt, hwhole, hshort, hnext⟩ := h.wholePart
  zify at hle hlt hwhole
  unfold Binary.floor truncate units
  cases hsign : value.negative with
  | false => exact ⟨hle, hlt, hshort⟩
  | true =>
    cases his : value.isWhole with
    | false =>
      have hne : (value.size : Int) ≠ value.wholePart * unit := fun heq => by
        simp [hwhole.mpr heq] at his
      have hmore := lt_of_le_of_ne hle hne.symm
      have habs : (-(value.wholePart : Int) - 1).natAbs = value.wholePart + 1 := by omega
      simp only [if_true, Bool.not_false, Bool.and_true]
      refine ⟨by linarith, by linarith, ?_⟩
      rw [habs]
      exact hnext his
    | true =>
      have heq := hwhole.mp his
      have hpos : (0 : Int) < unit := Int.natCast_pos.mpr unit_pos
      simp only [if_true, Bool.not_true, Bool.and_false, Bool.false_eq_true, if_false]
      exact ⟨by linarith, by linarith, by rwa [Int.natAbs_neg]⟩

/-- The same magnitude on the other side of zero. -/
def opposite (value : Binary) : Binary := { value with negative := !value.negative }

/-- The ceiling of a value is the first whole number that is not below it, and is short. -/
theorem Canonical.ceil (h : value.Canonical) :
    (value.ceil - 1) * unit < value.units ∧ value.units ≤ value.ceil * unit ∧
      Short value.ceil.natAbs := by
  have hopposite : value.opposite.Canonical := ⟨h.fits, h.least, h.normal⟩
  have hceil : value.opposite.floor = -value.ceil := by
    have hwhole : value.opposite.isWhole = value.isWhole := rfl
    have hpart : value.opposite.wholePart = value.wholePart := rfl
    have hsign : value.opposite.negative = !value.negative := rfl
    simp only [Binary.floor, Binary.ceil, truncate, hwhole, hpart, hsign]
    cases value.negative <;> cases value.isWhole <;> simp
    omega
  have hunits : value.opposite.units = -value.units := by
    unfold units opposite
    cases value.negative <;> simp [size]
  obtain ⟨hle, hlt, hshort⟩ := hopposite.floor
  rw [hceil, hunits] at hle hlt
  rw [hceil, Int.natAbs_neg] at hshort
  exact ⟨by linarith, by linarith, hshort⟩

end Binary

namespace Long

/-! ### Doubles as integers -/

/-- The value of the double next to an integer brought into the range of 64 bits. The largest integer of
64 bits is next to the number that follows it. -/
def reach (k : Int) : Int := max (-2 ^ 63) (min (2 ^ 63) k)

/-- Numbers brought into range stay short. -/
theorem short_reach {k : Int} (h : Binary.Short k.natAbs) : Binary.Short (reach k).natAbs := by
  have hcases : reach k = k ∨ reach k = 2 ^ 63 ∨ reach k = -2 ^ 63 := by
    unfold reach
    omega
  rcases hcases with hsame | hedge | hedge
  · rwa [hsame]
  · rw [hedge]
    exact Binary.short_of_two_pow 63 rfl
  · rw [hedge]
    exact Binary.short_of_two_pow 63 rfl

/-- An integer brought into the range of 64 bits. -/
theorem toInt_clamp (k : Int) : (clamp k).toInt = max (-2 ^ 63) (min (2 ^ 63 - 1) k) := by
  unfold clamp
  rw [Int64.toInt_minValue, Int64.toInt_maxValue]
  exact Int64.toInt_ofInt_of_le (by omega) (by omega)

/-- A short integer brought into range has a double of just its value, or next to it. -/
theorem holds_toDouble_clamp {k : Int} (h : Binary.Short k.natAbs) :
    Double.Holds (toDouble (clamp k)) (reach k) := by
  rcases le_or_gt (2 ^ 63) k with hk | hk
  · have hclamp : clamp k = Int64.maxValue :=
      Int64.toInt_inj.mp (by rw [toInt_clamp, Int64.toInt_maxValue]; omega)
    have hreach : reach k = 2 ^ 63 := by
      unfold reach
      omega
    have hnext : toDouble Int64.maxValue = Float.ofInt (2 ^ 63) := by decide +kernel
    rw [hclamp, hreach, hnext]
    exact Double.holds_ofInt (Binary.short_of_two_pow 63 rfl) (by decide)
  · have hclamp : (clamp k).toInt = reach k := by
      rw [toInt_clamp]
      unfold reach
      omega
    rw [toDouble, hclamp]
    refine Double.holds_ofInt (short_reach h) ?_
    unfold reach
    omega

/-- An infinite double goes to the end of the range. -/
theorem ofDouble_infinite {x : Float} (h : Binary.ofDouble? x = none) (hnan : x.isNaN = false)
    (round : Binary → Int) :
    (ofDouble round x = Int64.maxValue ∧
      ∀ y value, Binary.ofDouble? y = some value → y < x ∧ ¬ x < y) ∨
    (ofDouble round x = Int64.minValue ∧
      ∀ y value, Binary.ofDouble? y = some value → x < y ∧ ¬ y < x) := by
  have hzero : Binary.ofDouble? 0.0 = some ⟨false, 0, -1074⟩ := by decide +kernel
  simp only [ofDouble, h]
  rcases Double.infinite_cases h hnan with habove | hbelow
  · exact Or.inl ⟨if_pos (habove _ _ hzero).1, habove⟩
  · refine Or.inr ⟨?_, hbelow⟩
    rw [if_neg (hbelow _ _ hzero).2, if_pos (hbelow _ _ hzero).1]

/-- Rounding down a double that is no NaN gives a whole number that is below the same whole numbers as
the double, but for the range. -/
theorem exists_floor {x : Float} (hnan : x.isNaN = false) : ∃ k : Int,
    ofDouble Binary.floor x = clamp k ∧ Binary.Short k.natAbs ∧
      ∀ n y, -2 ^ 63 ≤ n → n ≤ 2 ^ 63 → Double.Holds y n → (x < y ↔ k < n) := by
  have hunit : (0 : Int) < Binary.unit := Int.natCast_pos.mpr Binary.unit_pos
  cases hx : Binary.ofDouble? x with
  | none =>
    rcases ofDouble_infinite hx hnan Binary.floor with ⟨hend, hbeyond⟩ | ⟨hend, hbeyond⟩
    · refine ⟨2 ^ 63, hend.trans (by decide), Binary.short_of_two_pow 63 rfl, ?_⟩
      intro n y hlow hhigh ⟨value, hy, _⟩
      rw [iff_false_left (hbeyond y value hy).2]
      omega
    · refine ⟨-2 ^ 64, hend.trans (by decide), Binary.short_of_two_pow 64 rfl, ?_⟩
      intro n y hlow hhigh ⟨value, hy, _⟩
      rw [iff_true_left (hbeyond y value hy).1]
      omega
  | some value =>
    obtain ⟨hle, hlt, hshort⟩ := (Double.canonical hx).floor
    refine ⟨value.floor, by simp only [ofDouble, hx], hshort, ?_⟩
    intro n y hlow hhigh ⟨other, hy, hunits⟩
    rw [Double.lt_iff_units hx hy, hunits]
    constructor
    · intro h
      exact Int.lt_of_mul_lt_mul_right (hle.trans_lt h) hunit.le
    · intro h
      exact hlt.trans_le (Int.mul_le_mul_of_nonneg_right h hunit.le)

/-- Rounding up a double that is no NaN gives a whole number that is above the same whole numbers as the
double, but for the range. -/
theorem exists_ceil {x : Float} (hnan : x.isNaN = false) : ∃ k : Int,
    ofDouble Binary.ceil x = clamp k ∧ Binary.Short k.natAbs ∧
      ∀ n y, -2 ^ 63 ≤ n → n ≤ 2 ^ 63 → Double.Holds y n → (y < x ↔ n < k) := by
  have hunit : (0 : Int) < Binary.unit := Int.natCast_pos.mpr Binary.unit_pos
  cases hx : Binary.ofDouble? x with
  | none =>
    rcases ofDouble_infinite hx hnan Binary.ceil with ⟨hend, hbeyond⟩ | ⟨hend, hbeyond⟩
    · refine ⟨2 ^ 64, hend.trans (by decide), Binary.short_of_two_pow 64 rfl, ?_⟩
      intro n y hlow hhigh ⟨value, hy, _⟩
      rw [iff_true_left (hbeyond y value hy).1]
      omega
    · refine ⟨-2 ^ 63, hend.trans (by decide), Binary.short_of_two_pow 63 rfl, ?_⟩
      intro n y hlow hhigh ⟨value, hy, _⟩
      rw [iff_false_left (hbeyond y value hy).2]
      omega
  | some value =>
    obtain ⟨hlt, hle, hshort⟩ := (Double.canonical hx).ceil
    refine ⟨value.ceil, by simp only [ofDouble, hx], hshort, ?_⟩
    intro n y hlow hhigh ⟨other, hy, hunits⟩
    rw [Double.lt_iff_units hy hx, hunits]
    constructor
    · intro h
      exact Int.lt_of_mul_lt_mul_right (h.trans_le hle) hunit.le
    · intro h
      exact (Int.mul_le_mul_of_nonneg_right (by omega) hunit.le).trans_lt hlt

/-- Limits that cross may leave one whole number: if the one below the upper limit is below the lower
limit, but the one above the lower limit is not above the upper limit, the two are the same. -/
theorem ceil_eq_floor {least greatest : Float} (hnan : greatest.isNaN = false)
    (hleast : toDouble (ofDouble Binary.floor greatest) < least)
    (hgreatest : ¬ greatest < toDouble (ofDouble Binary.ceil least)) :
    ofDouble Binary.ceil least = ofDouble Binary.floor greatest := by
  obtain ⟨low, hlow, hlowShort, hbelow⟩ := exists_floor hnan
  obtain ⟨high, hhigh, hhighShort, habove⟩ := exists_ceil (Double.isNaN_of_gt hleast)
  have hrange : ∀ k, -2 ^ 63 ≤ reach k ∧ reach k ≤ 2 ^ 63 := by
    intro k
    unfold reach
    omega
  rw [hlow, habove _ _ (hrange low).1 (hrange low).2 (holds_toDouble_clamp hlowShort)] at hleast
  rw [hhigh, hbelow _ _ (hrange high).1 (hrange high).2 (holds_toDouble_clamp hhighShort)] at hgreatest
  rw [hlow, hhigh, ← Int64.toInt_inj, toInt_clamp, toInt_clamp]
  unfold reach at hleast hgreatest
  omega

end Long

end Patchbay
