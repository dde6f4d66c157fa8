import Patchbay.Proofs.Number.Scientific

/-!
# Shortest decimals read back

The decimal with the fewest digits that is found in the interval around a double has that double as the
nearest one. With seventeen digits there is always one: two neighbours on that grid are closer to each
other than the ends of the interval, so they cannot both be outside with the double between them.
-/

namespace Patchbay

/-- The number that a decimal stands for. -/
def Decimal.value (x : Decimal) : ℚ := x.digits * 10 ^ x.exponent

namespace Shortest

/-! ### Intervals -/

/-- What an interval around a number is made of. -/
structure Target.Spans (target : Target) (mantissa : Nat) (exponent : Int) (tight : Bool)
    (scale : Nat) : Prop where
  scale_pos : 0 < scale
  denominator_pos : 0 < target.denominator
  value_eq : target.value = 4 * mantissa * scale
  below_eq : target.below = (if tight then 1 else 2) * scale
  above_eq : target.above = 2 * scale
  unit_eq : (4 * scale : ℚ) = target.denominator * 2 ^ exponent
  closed_eq : target.closed = (mantissa % 2 == 0)

/-- The interval around a number is so made. -/
theorem Target.exists_spans (mantissa : Nat) (exponent : Int) (tight : Bool) :
    ∃ scale, (ofParts mantissa exponent tight).Spans mantissa exponent tight scale := by
  rcases le_or_gt 0 exponent with hsign | hsign
  · obtain ⟨power, rfl⟩ := Int.eq_ofNat_of_zero_le hsign
    refine ⟨2 ^ power, ?_⟩
    unfold ofParts
    simp only [hsign, if_true, Int.toNat_natCast, Nat.one_shiftLeft]
    exact ⟨Nat.two_pow_pos power, Nat.succ_pos 3, rfl, rfl, rfl, by simp, rfl⟩
  · obtain ⟨power, rfl⟩ := Int.exists_eq_neg_ofNat hsign.le
    refine ⟨1, ?_⟩
    unfold ofParts
    simp only [Int.not_le.mpr hsign, if_false, Int.neg_neg, Int.toNat_natCast, Nat.shiftLeft_eq]
    refine ⟨Nat.one_pos, by positivity, rfl, rfl, rfl, ?_, rfl⟩
    simp

variable {target : Target} {value : Binary} {scale : Nat}

/-- What the interval around a double holds has that double as the nearest one. -/
theorem Target.Spans.nearest
    (h : target.Spans value.mantissa value.exponent value.isTight scale)
    (hpos : 0 < value.mantissa) {numerator denominator : Nat} (hdenominator : 0 < denominator)
    (hadmits : target.admits numerator denominator = true) :
    value.Nearest ((numerator : ℚ) / denominator) := by
  have hscale : (0 : ℚ) < scale := by exact_mod_cast h.scale_pos
  have hpart : (0 : ℚ) < denominator := by exact_mod_cast hdenominator
  have htarget : (0 : ℚ) < target.denominator := by exact_mod_cast h.denominator_pos
  obtain ⟨reach, hreach, hbelow⟩ : ∃ reach : Nat, target.below = reach * scale ∧
      value.reachBelow = reach / 4 ∧ reach ≤ 2 := by
    refine ⟨_, h.below_eq, ?_⟩
    unfold Binary.reachBelow
    split <;> norm_num
  have hpoint : (numerator : ℚ) / denominator / 2 ^ value.exponent =
      numerator * target.denominator / (4 * (scale * denominator)) := by
    rw [show (4 * (scale * denominator) : ℚ) = 4 * scale * denominator by ring, h.unit_eq]
    field_simp
  have hlow : (((target.value - target.below) * denominator : Nat) : ℚ) =
      (value.mantissa - reach / 4) * (4 * (scale * denominator)) := by
    rw [h.value_eq, hreach, ← Nat.sub_mul]
    push_cast [Nat.cast_sub (by omega : reach ≤ 4 * value.mantissa)]
    ring
  have hhigh : (((target.value + target.above) * denominator : Nat) : ℚ) =
      (value.mantissa + 1 / 2) * (4 * (scale * denominator)) := by
    rw [h.value_eq, h.above_eq]
    push_cast
    ring
  have hunit : (0 : ℚ) < 4 * (scale * denominator) := by positivity
  -- The ends of the interval belong to it if the mantissa is even.
  unfold Target.admits at hadmits
  rw [h.closed_eq] at hadmits
  split at hadmits
  · next heven =>
    obtain ⟨hleast, hmost⟩ := Bool.and_eq_true_iff.mp hadmits
    have hleast := Nat.cast_le (α := ℚ).mpr (of_decide_eq_true hleast)
    have hmost := Nat.cast_le (α := ℚ).mpr (of_decide_eq_true hmost)
    rw [hlow, Nat.cast_mul numerator] at hleast
    rw [hhigh, Nat.cast_mul numerator] at hmost
    refine ⟨?_, ?_, fun hodd => ?_⟩
    · rw [hpoint, hbelow.1, le_div_iff₀ hunit]
      exact hleast
    · rw [hpoint, div_le_iff₀ hunit]
      exact hmost
    · rw [beq_iff_eq] at heven
      omega
  · obtain ⟨hleast, hmost⟩ := Bool.and_eq_true_iff.mp hadmits
    have hleast := Nat.cast_lt (α := ℚ).mpr (of_decide_eq_true hleast)
    have hmost := Nat.cast_lt (α := ℚ).mpr (of_decide_eq_true hmost)
    rw [hlow, Nat.cast_mul numerator] at hleast
    rw [hhigh, Nat.cast_mul numerator] at hmost
    have hhalf := value.reachBelow_le
    rw [hbelow.1] at hhalf
    rw [← lt_div_iff₀ hunit, ← hpoint] at hleast
    rw [← div_lt_iff₀ hunit, ← hpoint] at hmost
    exact ⟨hbelow.1.symm ▸ hleast.le, hmost.le, fun _ => ⟨by linarith, hmost⟩⟩

/-! ### Grids -/

/-- A power of ten as a quotient of whole numbers. -/
theorem ten_zpow_eq (exponent : Int) :
    (10 : ℚ) ^ exponent = (10 ^ exponent.toNat : Nat) / (10 ^ (-exponent).toNat : Nat) := by
  rcases le_or_gt 0 exponent with hsign | hsign
  · obtain ⟨power, rfl⟩ := Int.eq_ofNat_of_zero_le hsign
    simp
  · obtain ⟨power, rfl⟩ := Int.exists_eq_neg_ofNat hsign.le
    simp

/-- Dropping a zero leaves the number as it is. -/
theorem value_dropZero (x : Decimal) : (dropZero x).value = x.value := by
  unfold dropZero
  split
  · next hzero =>
    have hdigits : x.digits = 10 * (x.digits / 10) := by omega
    have hcast : (x.digits : ℚ) = 10 * (x.digits / 10 : Nat) := by exact_mod_cast hdigits
    simp only [Decimal.value]
    rw [zpow_add_one₀ (by norm_num), hcast]
    ring
  · rfl

/-- What is found on a grid is in the interval. -/
theorem Target.admits_of_onGrid {magnitude : Int} {count : Nat} {found : Decimal}
    (h : target.onGrid magnitude count = some found) :
    ∃ numerator denominator, 0 < denominator ∧ target.admits numerator denominator = true ∧
      found.value = (numerator : ℚ) / denominator := by
  have hvalue : ∀ digits : Nat, (⟨digits, magnitude - count⟩ : Decimal).value =
      ((digits * 10 ^ (magnitude - count).toNat : Nat) : ℚ) /
        (10 ^ (-(magnitude - count)).toNat : Nat) := by
    intro digits
    rw [Decimal.value, ten_zpow_eq]
    push_cast
    ring
  have hpower := Nat.pow_pos (n := (-(magnitude - (count : Int))).toNat) (by decide : 0 < 10)
  simp only [onGrid, Nat.pow_eq] at h
  split at h
  · next hboth =>
    obtain ⟨hlower, hupper⟩ := Bool.and_eq_true_iff.mp hboth
    obtain rfl := Option.some.inj h
    rw [value_dropZero]
    split
    · exact ⟨_, _, hpower, hlower, hvalue _⟩
    · exact ⟨_, _, hpower, hupper, hvalue _⟩
  split at h
  · next hlower =>
    obtain rfl := Option.some.inj h
    exact ⟨_, _, hpower, hlower, hvalue _⟩
  split at h
  · next hupper =>
    obtain rfl := Option.some.inj h
    rw [value_dropZero]
    exact ⟨_, _, hpower, hupper, hvalue _⟩
  · cases h

/-- What is not above the number and not in the interval is below the interval. -/
theorem Target.le_of_not_admits (hpos : 0 < target.above) {numerator denominator : Nat}
    (hdenominator : 0 < denominator) (h : ¬ target.admits numerator denominator = true)
    (hle : numerator * target.denominator ≤ target.value * denominator) :
    numerator * target.denominator ≤ (target.value - target.below) * denominator := by
  have hmore : target.value * denominator < (target.value + target.above) * denominator :=
    Nat.mul_lt_mul_of_pos_right (by omega) hdenominator
  unfold admits at h
  split at h <;> simp only [Bool.and_eq_true, decide_eq_true_eq] at h <;> omega

/-- What is above the number and not in the interval is above the interval. -/
theorem Target.ge_of_not_admits {numerator denominator : Nat}
    (h : ¬ target.admits numerator denominator = true)
    (hlt : target.value * denominator < numerator * target.denominator) :
    (target.value + target.above) * denominator ≤ numerator * target.denominator := by
  have hless : (target.value - target.below) * denominator ≤ target.value * denominator :=
    Nat.mul_le_mul_right denominator (Nat.sub_le _ _)
  unfold admits at h
  split at h <;> simp only [Bool.and_eq_true, decide_eq_true_eq] at h <;> omega

/-- On a grid that is finer than the interval is wide something is found. -/
theorem Target.isSome_onGrid {magnitude : Int} {count : Nat} (hbelow : target.below ≤ target.value)
    (hpos : 0 < target.above) (hdenominator : 0 < target.denominator)
    (h : target.denominator * 10 ^ (magnitude - count).toNat <
      (target.below + target.above) * 10 ^ (-(magnitude - count)).toNat) :
    (target.onGrid magnitude count).isSome = true := by
  have hup := Nat.pow_pos (n := (magnitude - (count : Int)).toNat) (by decide : 0 < 10)
  have hdown := Nat.pow_pos (n := (-(magnitude - (count : Int))).toNat) (by decide : 0 < 10)
  simp only [onGrid, Nat.pow_eq]
  generalize 10 ^ (magnitude - count).toNat = up at *
  generalize 10 ^ (-(magnitude - (count : Int))).toNat = down at *
  split
  · rfl
  split
  · rfl
  split
  · rfl
  · next hlower hupper =>
    exfalso
    have hstep : 0 < target.denominator * up := Nat.mul_pos hdenominator hup
    have hleast := Nat.div_mul_le_self (target.value * down) (target.denominator * up)
    have hmost := Nat.lt_mul_div_succ (target.value * down) hstep
    generalize target.value * down / (target.denominator * up) = digits at *
    have hlow := le_of_not_admits hpos hdown hlower (by linarith)
    have hhigh := ge_of_not_admits hupper (by linarith)
    rw [Nat.sub_mul] at hlow
    have hsmall : target.below * down ≤ target.value * down := Nat.mul_le_mul_right down hbelow
    rw [Nat.add_mul] at hhigh h
    have hnext : (digits + 1) * up * target.denominator =
        digits * up * target.denominator + target.denominator * up := by ring
    omega

/-! ### Magnitudes -/

/-- A number has as many digits as its power of ten says. -/
theorem digitCount_bounds {n : Nat} (h : 0 < n) :
    ∃ count, digitCount n = count + 1 ∧ 10 ^ count ≤ n ∧ n < 10 ^ (count + 1) := by
  have hlength : digitCount n = (Nat.toDigits 10 n).length := if_neg h.ne'
  have hpos : 0 < (Nat.toDigits 10 n).length := List.length_pos_iff.mpr Nat.toDigits_ne_nil
  obtain ⟨count, hcount⟩ : ∃ count, (Nat.toDigits 10 n).length = count + 1 :=
    ⟨_, (Nat.succ_pred_eq_of_pos hpos).symm⟩
  refine ⟨count, hlength.trans hcount, ?_, ?_⟩
  · cases count with
    | zero => exact h
    | succ count =>
      by_contra hless
      have hshort := (Nat.length_toDigits_le_iff (by decide : 1 < 10) (Nat.succ_pos count)).mpr
        (Nat.lt_of_not_le hless)
      omega
  · exact (Nat.length_toDigits_le_iff (by decide : 1 < 10) (Nat.succ_pos count)).mp hcount.le

/-- A number is not below the power of ten that its magnitude tells. -/
theorem Target.ten_zpow_le (hvalue : 0 < target.value) (hdenominator : 0 < target.denominator) :
    (10 : ℚ) ^ (target.magnitude - 1) ≤ (target.value : ℚ) / target.denominator := by
  have hpart : (0 : ℚ) < target.denominator := by exact_mod_cast hdenominator
  unfold magnitude
  split
  · next hwhole =>
    have hquotient := Nat.div_pos hwhole hdenominator
    obtain ⟨count, hcount, hleast, -⟩ := digitCount_bounds hquotient
    rw [hcount, Nat.cast_add, Nat.cast_one, Int.add_sub_cancel, zpow_natCast, le_div_iff₀ hpart]
    exact_mod_cast (Nat.le_div_iff_mul_le hdenominator).mp hleast
  · next hfraction =>
    obtain ⟨rest, hrest⟩ :
        ∃ rest, (target.denominator + target.value - 1) / target.value = rest + 2 := by
      have htwo : 2 ≤ (target.denominator + target.value - 1) / target.value :=
        (Nat.le_div_iff_mul_le hvalue).mpr (by omega)
      exact ⟨_, (Nat.sub_add_cancel htwo).symm⟩
    obtain ⟨count, hcount, -, hmost⟩ := digitCount_bounds (Nat.succ_pos rest)
    have hless := Nat.lt_mul_div_succ (target.denominator + target.value - 1) hvalue
    rw [hrest] at hless ⊢
    have hceil : target.denominator ≤ target.value * 10 ^ (count + 1) := by
      calc target.denominator ≤ target.value * (rest + 2) := by
            rw [Nat.mul_add] at hless
            omega
        _ ≤ target.value * 10 ^ (count + 1) := Nat.mul_le_mul_left _ hmost
    have hpower : 1 - ((count + 1 : Nat) : Int) - 1 = -((count + 1 : Nat) : Int) := by omega
    change (10 : ℚ) ^ (1 - (digitCount (rest + 1) : Int) - 1) ≤ _
    rw [hcount, hpower, le_div_iff₀ hpart, zpow_neg, zpow_natCast, inv_mul_le_iff₀ (by positivity),
      mul_comm]
    exact_mod_cast hceil

/-! ### The search -/

/-- If something is found on a grid that the search reaches, the search finds something, and on no later
grid. -/
theorem Target.exists_search {magnitude : Int} {count steps remaining : Nat}
    (h : (target.onGrid magnitude (count + steps)).isSome = true) (hsteps : steps < remaining) :
    ∃ found grid, target.search magnitude count remaining = some found ∧ grid ≤ count + steps ∧
      target.onGrid magnitude grid = some found := by
  induction remaining generalizing count steps with
  | zero => exact absurd hsteps (Nat.not_lt_zero steps)
  | succ remaining ih =>
    rw [search]
    cases hgrid : target.onGrid magnitude count with
    | some found => exact ⟨found, count, rfl, Nat.le_add_right count steps, hgrid⟩
    | none =>
      cases steps with
      | zero =>
        rw [Nat.add_zero, hgrid] at h
        cases h
      | succ steps =>
        rw [show count + (steps + 1) = count + 1 + steps by omega] at h ⊢
        exact ih h (Nat.lt_of_succ_lt_succ hsteps)

end Shortest

/-- The interval around a double is wider than the last of seventeen digits. -/
theorem Shortest.Target.Spans.wide {target : Target} {value : Binary} {scale : Nat}
    (h : target.Spans value.mantissa value.exponent value.isTight scale)
    (hcanonical : value.Canonical) :
    (target.value : ℚ) < (target.below + target.above) * 10 ^ 16 := by
  have hscale : (0 : ℚ) < scale := by exact_mod_cast h.scale_pos
  have hfits : (value.mantissa : ℚ) < 2 ^ 53 := by exact_mod_cast hcanonical.fits
  rw [h.value_eq, h.below_eq, h.above_eq]
  split
  · next htight =>
    have hpower : (value.mantissa : ℚ) = 2 ^ 52 := by
      exact_mod_cast beq_iff_eq.mp (Bool.and_eq_true_iff.mp htight).1
    push_cast
    nlinarith
  · push_cast
    nlinarith

namespace Binary

variable {value : Binary}

/-- The interval around a double. -/
def target (value : Binary) : Shortest.Target :=
  .ofParts value.mantissa value.exponent value.isTight

/-- What the interval around a double is made of. -/
theorem exists_spans_target (value : Binary) :
    ∃ scale, value.target.Spans value.mantissa value.exponent value.isTight scale :=
  Shortest.Target.exists_spans value.mantissa value.exponent value.isTight

/-- If something is found on one of the seventeen grids, the shortest decimal is found, and on no later
grid. -/
theorem exists_onGrid_shortest (hpos : 0 < value.mantissa) {steps : Nat} (hsteps : steps < 17)
    (h : (value.target.onGrid value.target.magnitude (1 + steps)).isSome = true) :
    ∃ grid ≤ 1 + steps,
      value.target.onGrid value.target.magnitude grid = some (value.shortest .double) := by
  have hshortest : value.shortest .double =
      (value.target.search value.target.magnitude 1 17).getD ⟨value.mantissa, value.exponent⟩ :=
    if_neg hpos.ne'
  obtain ⟨found, grid, hsearch, hgrid, hfound⟩ := Shortest.Target.exists_search h hsteps
  rw [hsearch, Option.getD_some] at hshortest
  exact ⟨grid, hgrid, hshortest ▸ hfound⟩

/-- On the grid of seventeen digits something is found. -/
theorem Canonical.isSome_onGrid_last (h : value.Canonical) (hpos : 0 < value.mantissa) :
    (value.target.onGrid value.target.magnitude (1 + 16)).isSome = true := by
  obtain ⟨scale, hspans⟩ := value.exists_spans_target
  generalize value.target = target at hspans ⊢
  have hvalue : 0 < target.value := by
    rw [hspans.value_eq]
    exact Nat.mul_pos (Nat.mul_pos (by decide) hpos) hspans.scale_pos
  have hbelow : target.below ≤ target.value := by
    rw [hspans.below_eq, hspans.value_eq]
    refine Nat.mul_le_mul_right scale ?_
    split <;> omega
  have habove : 0 < target.above := by
    rw [hspans.above_eq]
    exact Nat.mul_pos (by decide) hspans.scale_pos
  have hpart : (0 : ℚ) < target.denominator := by exact_mod_cast hspans.denominator_pos
  have hstep : (target.denominator : ℚ) * 10 ^ (target.magnitude - (17 : Nat)) <
      target.below + target.above := by
    have hpower := Shortest.Target.ten_zpow_le hvalue hspans.denominator_pos
    have hwide := hspans.wide h
    have hsplit : target.magnitude - (17 : Nat) = target.magnitude - 1 - (16 : Nat) := by omega
    rw [le_div_iff₀ hpart] at hpower
    rw [hsplit, zpow_sub₀ (by norm_num), zpow_natCast, ← mul_div_assoc, div_lt_iff₀ (by positivity)]
    linarith
  have hfine : target.denominator * 10 ^ (target.magnitude - (17 : Nat)).toNat <
      (target.below + target.above) * 10 ^ (-(target.magnitude - (17 : Nat))).toNat := by
    rw [Shortest.ten_zpow_eq, ← mul_div_assoc, div_lt_iff₀ (by positivity)] at hstep
    exact_mod_cast hstep
  exact Shortest.Target.isSome_onGrid hbelow habove hspans.denominator_pos hfine

/-- The shortest decimal of a double has that double as the nearest one. -/
theorem Canonical.nearest_shortest (h : value.Canonical) (hpos : 0 < value.mantissa) :
    value.Nearest (value.shortest .double).value := by
  obtain ⟨grid, -, hgrid⟩ := exists_onGrid_shortest hpos (by decide) (h.isSome_onGrid_last hpos)
  obtain ⟨numerator, denominator, hdenominator, hadmits, hfound⟩ :=
    Shortest.Target.admits_of_onGrid hgrid
  obtain ⟨scale, hspans⟩ := value.exists_spans_target
  rw [hfound]
  exact hspans.nearest hpos hdenominator hadmits

end Binary

end Patchbay
