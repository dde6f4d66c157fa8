import Patchbay.Proofs.Number.ReadBack

/-!
# Doubles written without a point

The shortest decimal of a double has no places behind the point just if the double is a whole number. A
whole number below 10^15 keeps one place all the same. So the doubles whose numeral is also one of an
integer are the whole numbers from 10^15 on, and of these the ones below 2^63 are in the range of 64 bits;
2^63 itself is written as a number above it.
-/

namespace Patchbay

namespace Shortest

variable {target : Target}

/-- Dropping a zero leaves no more places than there were. -/
theorem exponent_le_dropZero (x : Decimal) : x.exponent ≤ (dropZero x).exponent := by
  unfold dropZero
  split
  · exact Int.le_add_one (Int.le_refl _)
  · exact Int.le_refl _

/-- What is found on a grid has no more places than the grid. -/
theorem Target.exponent_of_onGrid {magnitude : Int} {count : Nat} {found : Decimal}
    (h : target.onGrid magnitude count = some found) : magnitude - count ≤ found.exponent := by
  simp only [onGrid] at h
  split at h
  · obtain rfl := Option.some.inj h
    exact exponent_le_dropZero _
  split at h
  · obtain rfl := Option.some.inj h
    exact Int.le_refl _
  split at h
  · obtain rfl := Option.some.inj h
    exact exponent_le_dropZero _
  · cases h

/-- A whole number is found on the grid of the whole numbers. -/
theorem Target.isSome_onGrid_whole {n : Nat} (hdenominator : 0 < target.denominator)
    (hvalue : target.value = target.denominator * n) (hpos : 0 < target.value)
    (hbelow : 0 < target.below) (habove : 0 < target.above) (count : Nat) :
    (target.onGrid count count).isSome = true := by
  have hdigits : target.value / target.denominator = n :=
    Nat.div_eq_of_eq_mul_right hdenominator hvalue
  have hself : target.admits n 1 = true := by
    simp only [admits, Nat.mul_one, Nat.mul_comm n, ← hvalue]
    split <;> simp only [Bool.and_eq_true, decide_eq_true_eq] <;> omega
  simp only [onGrid, Int.sub_self, Int.neg_zero, Int.toNat_zero, Nat.pow_eq, Nat.pow_zero, Nat.mul_one,
    hdigits, hself, Bool.true_and, if_true]
  split <;> rfl

end Shortest

namespace Binary

variable {value : Binary}

/-- The shortest decimal of a whole number has no places. -/
theorem Canonical.exponent_shortest_nonneg (h : value.Canonical) (hpos : 0 < value.mantissa)
    (hwhole : value.isWhole = true) : 0 ≤ (value.shortest .double).exponent := by
  obtain ⟨scale, hspans⟩ := value.exists_spans_target
  have hscale := hspans.scale_pos
  have hpart := hspans.denominator_pos
  have hvalue : value.target.value = value.target.denominator * value.wholePart := by
    have hcast : (value.target.value : ℚ) = value.target.denominator * value.wholePart := by
      rw [hspans.value_eq, Numeral.wholePart_eq h hwhole]
      push_cast
      linear_combination (value.mantissa : ℚ) * hspans.unit_eq
    exact_mod_cast hcast
  have hsize : 0 < value.target.value := by
    rw [hspans.value_eq]
    exact Nat.mul_pos (Nat.mul_pos (by decide) hpos) hscale
  have hbelow : 0 < value.target.below := by
    rw [hspans.below_eq]
    exact Nat.mul_pos (by split <;> decide) hscale
  have habove : 0 < value.target.above := by
    rw [hspans.above_eq]
    exact Nat.mul_pos (by decide) hscale
  have hsome : 0 < value.wholePart := Nat.pos_of_mul_pos_left (hvalue ▸ hsize)
  obtain ⟨count, hcount, -⟩ := Shortest.digitCount_bounds hsome
  have hmagnitude : value.target.magnitude = (1 + count : Nat) := by
    have hle : value.target.denominator ≤ value.target.value :=
      hvalue ▸ Nat.le_mul_of_pos_right _ hsome
    rw [Shortest.Target.magnitude, if_pos hle, Nat.div_eq_of_eq_mul_right hpart hvalue, hcount,
      Nat.add_comm]
  obtain ⟨grid, hgrid, hfound⟩ : ∃ grid ≤ 1 + count,
      value.target.onGrid value.target.magnitude grid = some (value.shortest .double) := by
    rcases Nat.lt_or_ge count 17 with hfew | hmany
    · refine exists_onGrid_shortest hpos hfew ?_
      rw [hmagnitude]
      exact Shortest.Target.isSome_onGrid_whole hpart hvalue hsize hbelow habove _
    · -- A number of more digits has none of seventeen behind its point.
      obtain ⟨grid, hgrid, hfound⟩ :=
        exists_onGrid_shortest hpos (by decide) (h.isSome_onGrid_last hpos)
      exact ⟨grid, by omega, hfound⟩
  have hplaces := Shortest.Target.exponent_of_onGrid hfound
  omega

/-- A double that is nearest to a whole number is one. -/
theorem Nearest.isWhole {n : Nat} (h : value.Nearest n) : value.isWhole = true := by
  rcases le_or_gt 0 value.exponent with hsign | hsign
  · exact (wholePart_of_nonneg hsign).1
  obtain ⟨places, hplaces⟩ := Int.exists_eq_neg_ofNat hsign.le
  obtain ⟨hlow, hhigh, -⟩ := h
  have hreach := value.reachBelow_le
  rw [hplaces, zpow_neg, zpow_natCast, div_inv_eq_mul] at hlow hhigh
  have hleast : (2 * value.mantissa : ℚ) ≤ 2 * (n * 2 ^ places) + 1 := by linarith
  have hmost : (2 * (n * 2 ^ places) : ℚ) ≤ 2 * value.mantissa + 1 := by linarith
  have hleast : 2 * value.mantissa ≤ 2 * (n * 2 ^ places) + 1 := by exact_mod_cast hleast
  have hmost : 2 * (n * 2 ^ places) ≤ 2 * value.mantissa + 1 := by exact_mod_cast hmost
  have hmantissa : value.mantissa = n * 2 ^ places := by omega
  simp [Binary.isWhole, hplaces, hmantissa, Nat.one_shiftLeft]

/-- A decimal without places stands for a whole number. -/
theorem value_of_nonneg {x : Decimal} (h : 0 ≤ x.exponent) :
    x.value = (x.digits * 10 ^ x.exponent.toNat : Nat) := by
  obtain ⟨power, hpower⟩ := Int.eq_ofNat_of_zero_le h
  rw [Decimal.value, hpower, Int.toNat_natCast, zpow_natCast]
  push_cast
  rfl

/-- The shortest decimal of a double has no places just if the double is a whole number. -/
theorem Canonical.exponent_shortest_nonneg_iff (h : value.Canonical) (hpos : 0 < value.mantissa) :
    0 ≤ (value.shortest .double).exponent ↔ value.isWhole = true := by
  refine ⟨fun hsign => ?_, h.exponent_shortest_nonneg hpos⟩
  have hnearest := h.nearest_shortest hpos
  rw [value_of_nonneg hsign] at hnearest
  exact hnearest.isWhole

/-! ### The range of 64 bits -/

/-- A whole number is below 2^63 just if its last bit is worth 2^10 at most. -/
theorem Canonical.wholePart_lt_iff (h : value.Canonical) (hwhole : value.isWhole = true) :
    value.wholePart < 2 ^ 63 ↔ value.exponent ≤ 10 := by
  have hpart := Numeral.wholePart_eq h hwhole
  have hfits : (value.mantissa : ℚ) < 2 ^ 53 := by exact_mod_cast h.fits
  constructor
  · intro hless
    by_contra hlarge
    have hfull : (2 : ℚ) ^ 52 ≤ value.mantissa := by
      exact_mod_cast h.normal.resolve_right (by omega)
    have hpower : (2 : ℚ) ^ (11 : Int) ≤ 2 ^ value.exponent :=
      zpow_le_zpow_right₀ one_le_two (by omega)
    have hcast : (2 : ℚ) ^ 63 ≤ value.wholePart := by
      calc (2 : ℚ) ^ 63 = 2 ^ 52 * 2 ^ (11 : Int) := by norm_num
        _ ≤ (value.mantissa : ℚ) * 2 ^ value.exponent := by gcongr
        _ = value.wholePart := hpart.symm
    exact absurd (by exact_mod_cast hcast) (Nat.not_le.mpr hless)
  · intro hsmall
    have hpower : (2 : ℚ) ^ value.exponent ≤ 2 ^ (10 : Int) := zpow_le_zpow_right₀ one_le_two hsmall
    have hcast : (value.wholePart : ℚ) < 2 ^ 63 := by
      calc (value.wholePart : ℚ) = value.mantissa * 2 ^ value.exponent := hpart
        _ ≤ value.mantissa * 2 ^ (10 : Int) := by gcongr
        _ < 2 ^ 53 * 2 ^ (10 : Int) := by gcongr
        _ = 2 ^ 63 := by norm_num
    exact_mod_cast hcast

/-- What a double whose last bit is worth 2^10 at most is nearest to is below 2^63. -/
theorem Nearest.lt_of_exponent_le {n : Nat} (h : value.Nearest n) (hcanonical : value.Canonical)
    (hexponent : value.exponent ≤ 10) : n < 2 ^ 63 := by
  have hless := h.lt_two_zpow hcanonical
  have hpower : (2 : ℚ) ^ (53 + value.exponent) ≤ 2 ^ (63 : Int) :=
    zpow_le_zpow_right₀ one_le_two (by omega)
  exact_mod_cast hless.trans_le hpower

/-- The shortest decimal of a larger double is above 2^63. -/
theorem Canonical.lt_value_shortest (h : value.Canonical) (hexponent : 10 < value.exponent) :
    2 ^ 63 < (value.shortest .double).value := by
  have hfull := h.normal.resolve_right (by omega)
  by_cases hlimit : value.mantissa = 2 ^ 52 ∧ value.exponent = 11
  · -- The decimal below the power of two would be read as the double below it.
    have hshortest : value.shortest .double = ⟨9223372036854776, 3⟩ := by
      obtain ⟨negative, mantissa, exponent⟩ := value
      obtain ⟨rfl, rfl⟩ : mantissa = 2 ^ 52 ∧ exponent = 11 := hlimit
      cases negative <;> decide +kernel
    rw [hshortest, Decimal.value]
    norm_num
  have hlow := (h.nearest_shortest (by omega)).low
  have hreach := value.reachBelow_le
  rw [le_div_iff₀ (by positivity)] at hlow
  refine lt_of_lt_of_le ?_ hlow
  by_cases hmantissa : value.mantissa = 2 ^ 52
  · have hpower : (2 : ℚ) ^ (12 : Int) ≤ 2 ^ value.exponent :=
      zpow_le_zpow_right₀ one_le_two (by omega)
    have hcast : (value.mantissa : ℚ) = 2 ^ 52 := by exact_mod_cast hmantissa
    rw [hcast]
    calc (2 : ℚ) ^ 63 < (2 ^ 52 - 1 / 2) * 2 ^ (12 : Int) := by norm_num
      _ ≤ (2 ^ 52 - value.reachBelow) * 2 ^ value.exponent := by
          gcongr
          linarith
  · have hpower : (2 : ℚ) ^ (11 : Int) ≤ 2 ^ value.exponent :=
      zpow_le_zpow_right₀ one_le_two (by omega)
    have hcast : (2 : ℚ) ^ 52 + 1 ≤ value.mantissa := by
      exact_mod_cast (by omega : 2 ^ 52 + 1 ≤ value.mantissa)
    calc (2 : ℚ) ^ 63 < (2 ^ 52 + 1 - 1 / 2) * 2 ^ (11 : Int) := by norm_num
      _ ≤ (value.mantissa - value.reachBelow) * 2 ^ value.exponent := by
          gcongr
          linarith

end Binary

/-! ### Numerals that are also those of integers -/

/-- Decide whether a double is a whole number of sixteen digits or more in the range of 64 bits. -/
def Double.looksLong (x : Float) : Bool :=
  match Binary.ofDouble? x with
  | some value => value.isWhole && 10 ^ 15 ≤ value.wholePart && value.wholePart < 2 ^ 63
  | none => false

namespace Numeral

/-- A decimal with places has a point. -/
theorem point_mem_positional {x : Decimal} (h : x.exponent < 0) : '.' ∈ positional x := by
  simp only [positional, if_neg (Int.not_le.mpr h)]
  split <;> simp

/-- A decimal without places is written with the digits of a whole number. -/
theorem positional_of_nonneg {x : Decimal} (hdigits : x.digits ≠ 0) (h : 0 ≤ x.exponent) :
    positional x = nat (x.digits * 10 ^ x.exponent.toNat) := by
  simp only [positional, if_pos h]
  exact nat_append_zeros hdigits _

/-- A magnitude other than 2^63 is in the range of 64 bits just if it is below, on either side of zero. -/
theorem isSome_ofInt?_iff {n : Nat} (h : n ≠ 2 ^ 63) (minus : Bool) :
    (Long.ofInt? (if minus then -(n : Int) else n)).isSome = true ↔ n < 2 ^ 63 := by
  have hrange : Int64.minValue.toInt = -2 ^ 63 ∧ Int64.maxValue.toInt = 2 ^ 63 - 1 := by decide
  rw [Long.ofInt?, hrange.1, hrange.2]
  cases minus <;> simp only [Bool.false_eq_true, if_true, if_false] <;> split <;> simp <;> omega

/-- The shortest decimal of a double is read as an integer just if the double is a whole number below
2^63. -/
theorem isSome_readLong?_shortest {value : Binary} (h : value.Canonical) (hpos : 0 < value.mantissa)
    (minus : Bool) :
    (readLong? (signed minus (positional (value.shortest .double)))).isSome = true ↔
      value.isWhole = true ∧ value.wholePart < 2 ^ 63 := by
  have hdigits := Binary.shortest_ne_zero .double hpos.ne'
  have hplaces := h.exponent_shortest_nonneg_iff hpos
  rcases lt_or_ge (value.shortest .double).exponent 0 with hsign | hsign
  · rw [(magnitude_positional hdigits).readLong?_eq_none (point_mem_positional hsign), ← hplaces]
    simp [hsign]
  have hwhole := hplaces.mp hsign
  have hvalue := Binary.value_of_nonneg hsign
  have hnearest := h.nearest_shortest hpos
  have hlarge : 10 < value.exponent → 2 ^ 63 < (value.shortest .double).value := h.lt_value_shortest
  rw [positional_of_nonneg hdigits hsign, readLong?_signed]
  rw [hvalue] at hnearest hlarge
  generalize (value.shortest .double).digits * 10 ^ (value.shortest .double).exponent.toNat = n at *
  rw [h.wholePart_lt_iff hwhole, and_iff_right hwhole]
  rcases le_or_gt value.exponent 10 with hsmall | hexponent
  · have hless := hnearest.lt_of_exponent_le h hsmall
    simpa [hsmall, hless.ne] using (isSome_ofInt?_iff hless.ne minus).mpr hless
  · have hmore : 2 ^ 63 < n := by exact_mod_cast hlarge hexponent
    rw [isSome_ofInt?_iff hmore.ne']
    omega

/-- The numeral of a finite double is read as an integer just if the double is a whole number of sixteen
digits or more that is in range. -/
theorem isSome_readLong?_atomDouble {x : Float} {value : Binary}
    (h : Binary.ofDouble? x = some value) :
    (readLong? (atomDouble x)).isSome = Double.looksLong x := by
  have hcanonical := Double.canonical h
  rw [Bool.eq_iff_iff]
  simp only [atomDouble, Double.looksLong, h, Nat.pow_eq]
  split
  · next hsmall =>
    obtain ⟨hwhole, hless⟩ := Bool.and_eq_true_iff.mp hsmall
    have hless := of_decide_eq_true hless
    have hpointed : Magnitude (nat value.wholePart ++ ".0".toList) := by
      refine .pointed (nat_ne_nil _) (List.cons_ne_nil '0' []) fun c hc => ?_
      rcases List.mem_append.mp hc with hc | hc
      · exact isDigit_of_mem_nat hc
      · obtain rfl := List.mem_singleton.mp hc
        decide
    have hnone := hpointed.readLong?_eq_none (by simp) value.negative
    rw [signed] at hnone
    simp only [hnone, hwhole, Option.isSome_none, Bool.true_and, Bool.and_eq_true, decide_eq_true_eq]
    exact ⟨fun hfalse => absurd hfalse Bool.false_ne_true, fun hlarge => by omega⟩
  · next hlarge =>
    have hpos : 0 < value.mantissa := by
      refine Nat.pos_of_ne_zero fun hzero => hlarge ?_
      simp [Binary.isWhole, Binary.wholePart, hzero]
    have hread := isSome_readLong?_shortest hcanonical hpos value.negative
    rw [signed] at hread
    rw [finite, hread]
    simp only [Bool.and_eq_true, decide_eq_true_eq, not_and, Nat.not_lt] at hlarge ⊢
    constructor
    · rintro ⟨hwhole, hless⟩
      exact ⟨⟨hwhole, hlarge hwhole⟩, hless⟩
    · rintro ⟨⟨hwhole, -⟩, hless⟩
      exact ⟨hwhole, hless⟩

end Numeral

end Patchbay
