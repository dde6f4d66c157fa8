import Patchbay.Proofs.Number.Whole

/-!
# The nearest double

What rounding makes of any positive number, whatever it is the result of. A mantissa that has been cut
off stands for the number together with two bits: whether what was cut off reaches a half, and whether
there is more. Shifting keeps that, so the last cut still tells on which side of a half the number is. A
number that is nearer to a double than to any other is rounded to it, and so is a number half-way to the
next, if the double is the even one of the two.

Below a power of two the doubles are closer to each other than above. A number just below is rounded up
to it with one bit more than a mantissa has, and the carry takes it to the next exponent.
-/

namespace Patchbay

open Float.Model (UnpackedFloat Format totalExponent)
open Float.Model.UnpackedFloat (Sign Accuracy ExtendedMantissa roundWithAccuracy
  shiftToTargetExponent shiftToExponent accuracyOfFraction)

/-! ### Mantissas cut off -/

/-- What the first bit behind a mantissa is worth. -/
def halfBit (bit : Bool) : ℚ := if bit then 1 / 2 else 0

/-- A mantissa is what is left of a number when its fraction is cut off, and its two further bits tell of
the fraction. -/
structure CutOff (extended : ExtendedMantissa) (x : ℚ) : Prop where
  low : extended.mantissa + halfBit extended.roundBit ≤ x
  high : x < extended.mantissa + halfBit extended.roundBit + 1 / 2
  sticky : extended.stickyBit = true ↔ extended.mantissa + halfBit extended.roundBit ≠ x

namespace CutOff

variable {extended : ExtendedMantissa} {x : ℚ}

/-- A mantissa with an accuracy that says so is exact. -/
theorem exact (mantissa : Nat) :
    CutOff (ExtendedMantissa.ofMantissaAndAccuracy mantissa .exact) mantissa := by
  constructor <;> simp [ExtendedMantissa.ofMantissaAndAccuracy, halfBit]

/-- A quotient with its remainder is exact enough. -/
theorem quotient (numerator : Nat) {denominator : Nat} (h : 0 < denominator) :
    CutOff (ExtendedMantissa.ofMantissaAndAccuracy (numerator / denominator)
      (accuracyOfFraction (numerator % denominator) denominator))
      ((numerator : ℚ) / denominator) := by
  have hpos : (0 : ℚ) < denominator := Nat.cast_pos.mpr h
  have hless : ((numerator % denominator : Nat) : ℚ) < denominator :=
    Nat.cast_lt.mpr (Nat.mod_lt numerator h)
  have hsplit : (numerator : ℚ) / denominator =
      (numerator / denominator : Nat) + ((numerator % denominator : Nat) : ℚ) / denominator := by
    rw [eq_comm, ← eq_sub_iff_add_eq', div_eq_iff hpos.ne', sub_mul, div_mul_cancel₀ _ hpos.ne',
      eq_sub_iff_add_eq']
    exact_mod_cast Nat.div_add_mod' numerator denominator
  rw [hsplit]
  generalize numerator / denominator = whole
  generalize numerator % denominator = rest at hless
  unfold accuracyOfFraction
  split
  · next hzero =>
    rw [hzero, Nat.cast_zero, zero_div, add_zero]
    exact exact whole
  · next hrest =>
    have hsome : (0 : ℚ) < rest / denominator := div_pos (Nat.cast_pos.mpr (by omega)) hpos
    have hone : (rest : ℚ) / denominator < 1 := (div_lt_one hpos).mpr hless
    rcases Nat.lt_trichotomy (2 * rest) denominator with hlt | heq | hgt
    · have hhalf : (rest : ℚ) / denominator < 1 / 2 := by
        rw [div_lt_iff₀ hpos]
        have hcast : (2 : ℚ) * rest < denominator := by exact_mod_cast hlt
        linarith
      rw [compare_lt_iff_lt.mpr hlt]
      constructor <;> simp only [ExtendedMantissa.ofMantissaAndAccuracy, halfBit] <;> grind
    · have hhalf : (rest : ℚ) / denominator = 1 / 2 := by
        rw [div_eq_iff hpos.ne']
        have hcast : (2 : ℚ) * rest = denominator := by exact_mod_cast heq
        linarith
      rw [compare_eq_iff_eq.mpr heq, hhalf]
      constructor <;> simp [ExtendedMantissa.ofMantissaAndAccuracy, halfBit]
    · have hhalf : 1 / 2 < (rest : ℚ) / denominator := by
        rw [lt_div_iff₀ hpos]
        have hcast : (denominator : ℚ) < 2 * rest := by exact_mod_cast hgt
        linarith
      rw [compare_gt_iff_gt.mpr hgt]
      constructor <;> simp only [ExtendedMantissa.ofMantissaAndAccuracy, halfBit, reduceIte] <;>
        grind

/-- The mantissa is the whole part. -/
theorem mantissa_le (h : CutOff extended x) :
    (extended.mantissa : ℚ) ≤ x ∧ x < extended.mantissa + 1 := by
  obtain ⟨hlow, hhigh, -⟩ := h
  unfold halfBit at hlow hhigh
  split at hlow <;> constructor <;> simp_all <;> linarith

/-- Shifting a mantissa by one bit halves the number. -/
theorem shiftRightOne (h : CutOff extended x) : CutOff extended.shiftRightOne (x / 2) := by
  obtain ⟨hlow, hhigh, hsticky⟩ := h
  have hsplit : (extended.mantissa : ℚ) =
      2 * (extended.mantissa / 2 : Nat) + (extended.mantissa % 2 : Nat) := by
    exact_mod_cast (Nat.div_add_mod extended.mantissa 2).symm
  rw [hsplit] at hlow hhigh hsticky
  rcases Nat.mod_two_eq_zero_or_one extended.mantissa with hbit | hbit <;>
    rw [hbit] at hlow hhigh hsticky <;>
    cases hround : extended.roundBit <;>
    simp only [hround, halfBit, Bool.false_eq_true, reduceIte, Nat.cast_zero, Nat.cast_one, add_zero]
      at hlow hhigh hsticky <;>
    constructor <;>
    simp only [ExtendedMantissa.shiftRightOne, halfBit, hbit, hround] <;>
    grind

/-- Shifting it by more bits divides the number by a power of two. -/
theorem shiftRight (h : CutOff extended x) (shift : Nat) :
    CutOff (extended >>> shift) (x / 2 ^ shift) := by
  change CutOff (Nat.repeat ExtendedMantissa.shiftRightOne shift extended) _
  induction shift with
  | zero => simpa [Nat.repeat] using h
  | succ shift ih =>
    rw [Nat.repeat, pow_succ, ← div_div]
    exact ih.shiftRightOne

/-- A number is rounded to the whole number that it is no further from than a half, and that is even if
it is just so far. -/
theorem roundedMantissa_eq (h : CutOff extended x) {n : Nat} (hlow : (n : ℚ) - 1 / 2 ≤ x)
    (hhigh : x ≤ n + 1 / 2) (hodd : n % 2 = 1 → (n : ℚ) - 1 / 2 < x ∧ x < n + 1 / 2) :
    extended.roundedMantissa = n := by
  obtain ⟨hleast, hmost, hsticky⟩ := h
  obtain ⟨mantissa, roundBit, stickyBit⟩ := extended
  have hcast : ∀ {a b : Nat}, (a : ℚ) < b + 1 → a ≤ b := by
    intro a b hless
    have hnat : a < b + 1 := by exact_mod_cast hless
    omega
  cases roundBit <;> cases stickyBit <;>
    simp only [halfBit, Bool.false_eq_true, reduceIte, add_zero, ne_eq, false_iff, true_iff,
      not_not] at hleast hmost hsticky <;>
    simp only [ExtendedMantissa.roundedMantissa, ExtendedMantissa.accuracy,
      Accuracy.roundToNearestEven]
  · refine Nat.le_antisymm (hcast ?_) (hcast ?_) <;> linarith
  · refine Nat.le_antisymm (hcast ?_) (hcast ?_)
    · linarith
    · have hmore := lt_of_le_of_ne hleast hsticky
      linarith
  · -- Half-way between two whole numbers the even one is taken.
    have hnext : n = mantissa ∨ n = mantissa + 1 := by
      have hle : n ≤ mantissa + 1 := hcast (by push_cast; linarith)
      have hge : mantissa ≤ n := hcast (by linarith)
      omega
    have heven : n % 2 ≠ 1 := fun h => by
      obtain ⟨hmore, hless⟩ := hodd h
      rcases hnext with rfl | rfl
      · linarith
      · push_cast at hmore
        linarith
    omega
  · have hmore := lt_of_le_of_ne hleast hsticky
    refine Nat.le_antisymm ?_ (hcast ?_)
    · have hle : mantissa < n := by
        have hlt : (mantissa : ℚ) < n := by linarith
        exact_mod_cast hlt
      exact hle
    · push_cast
      linarith

end CutOff

/-! ### Rounding to doubles -/

namespace Binary

/-- Decide whether the doubles below are closer to each other than those above. -/
def isTight (value : Binary) : Bool := value.mantissa == 2 ^ 52 && value.exponent != -1074

/-- How far below its magnitude a double is still the nearest, in units of its last bit. -/
def reachBelow (value : Binary) : ℚ := if value.isTight then 1 / 4 else 1 / 2

/-- No double is nearer to a positive number than the value, and none is as near whose mantissa is even,
if that of the value is not. -/
structure Nearest (value : Binary) (x : ℚ) : Prop where
  low : value.mantissa - value.reachBelow ≤ x / 2 ^ value.exponent
  high : x / 2 ^ value.exponent ≤ value.mantissa + 1 / 2
  odd : value.mantissa % 2 = 1 →
    (value.mantissa : ℚ) - 1 / 2 < x / 2 ^ value.exponent ∧
      x / 2 ^ value.exponent < value.mantissa + 1 / 2

variable {value : Binary} {x : ℚ}

/-- The reach is half a bit at most. -/
theorem reachBelow_le (value : Binary) : value.reachBelow ≤ 1 / 2 := by
  unfold reachBelow
  split <;> norm_num

/-- Dividing by a power of two and then by another. -/
theorem div_two_zpow_add (x : ℚ) (first second : Int) :
    x / 2 ^ (first + second) = x / 2 ^ first / 2 ^ second := by
  rw [zpow_add₀ two_ne_zero, div_div]

/-- What lies between powers of two tells their order. -/
theorem lt_of_two_zpow {low high : Int} (hlow : (2 : ℚ) ^ low ≤ x) (hhigh : x < 2 ^ high) :
    low < high :=
  (zpow_lt_zpow_iff_right₀ (by norm_num : (1 : ℚ) < 2)).mp (hlow.trans_lt hhigh)

/-- A number is below the power of two that its whole part is below. -/
theorem lt_two_zpow {mantissa : Nat} {exponent : Int} (h : x / 2 ^ exponent < mantissa + 1) :
    x < 2 ^ (mantissa.log2 + 1 + exponent : Int) := by
  have hpower : (mantissa + 1 : ℚ) ≤ 2 ^ (mantissa.log2 + 1 : Nat) := by
    exact_mod_cast (Nat.lt_log2_self (n := mantissa) : mantissa + 1 ≤ 2 ^ (mantissa.log2 + 1))
  rw [zpow_add₀ two_ne_zero, ← div_lt_iff₀ (by positivity)]
  exact_mod_cast h.trans_le hpower

/-- A number is not below the power of two that its whole part is not below. -/
theorem two_zpow_le {mantissa : Nat} {exponent : Int} (hpos : mantissa ≠ 0)
    (h : mantissa ≤ x / 2 ^ exponent) : 2 ^ (mantissa.log2 + exponent : Int) ≤ x := by
  have hpower : (2 : ℚ) ^ mantissa.log2 ≤ mantissa := by exact_mod_cast Nat.log2_self_le hpos
  rw [zpow_add₀ two_ne_zero, ← le_div_iff₀ (by positivity)]
  exact_mod_cast hpower.trans h

namespace Nearest

/-- A number is below the power of two that no mantissa reaches. -/
theorem lt_two_zpow (h : value.Nearest x) (hcanonical : value.Canonical) :
    x < 2 ^ (53 + value.exponent) := by
  have hmantissa : (value.mantissa : ℚ) + 1 ≤ 2 ^ 53 := by exact_mod_cast hcanonical.fits
  rw [zpow_add₀ two_ne_zero, ← div_lt_iff₀ (by positivity)]
  have hhigh := h.high
  linarith

/-- It is not below the power of two that a mantissa of full length is not below, or that which is half of
it where the doubles below are closer to each other. -/
theorem two_zpow_le (h : value.Nearest x) (hfull : 2 ^ 52 ≤ value.mantissa)
    (hexponent : value.exponent ≠ -1074) :
    if value.isTight then (2 : ℚ) ^ (51 + value.exponent) ≤ x else 2 ^ (52 + value.exponent) ≤ x := by
  have hlow := h.low
  unfold reachBelow at hlow
  split
  · next htight =>
    have hmantissa : (2 : ℚ) ^ 52 ≤ value.mantissa := by exact_mod_cast hfull
    rw [if_pos htight] at hlow
    rw [zpow_add₀ two_ne_zero, ← le_div_iff₀ (by positivity)]
    linarith
  · next htight =>
    have hmore : 2 ^ 52 + 1 ≤ value.mantissa := by
      have hne : value.mantissa ≠ 2 ^ 52 := fun heq => htight (by simp [isTight, heq, hexponent])
      omega
    have hmantissa : (2 : ℚ) ^ 52 + 1 ≤ value.mantissa := by exact_mod_cast hmore
    rw [if_neg htight] at hlow
    rw [zpow_add₀ two_ne_zero, ← le_div_iff₀ (by positivity)]
    linarith

/-- Whatever the number has been cut off at, its bits are to end where those of the double end, or one
bit further if the double is a power of two and the number is below. -/
theorem targetExponent_eq (h : value.Nearest x) (hcanonical : value.Canonical) {mantissa : Nat}
    {exponent : Int} (hlow : mantissa ≤ x / 2 ^ exponent) (hhigh : x / 2 ^ exponent < mantissa + 1)
    (hlong : exponent ≤ -1074 ∨ 2 ^ 52 ≤ mantissa) :
    ∃ target, Format.binary64.targetExponent (totalExponent mantissa exponent) = target ∧
      exponent ≤ target ∧ (target = value.exponent ∨
        value.isTight = true ∧ target = value.exponent - 1 ∧ x < 2 ^ (52 + value.exponent)) := by
  have htarget : Format.binary64.targetExponent (totalExponent mantissa exponent) =
      max (mantissa.log2 + exponent - 52) (-1074) := by
    change max ((mantissa.log2 : Int) + 1 + exponent - 53) (-1074) = _
    omega
  have hbelow := Binary.lt_two_zpow hhigh
  have hleast := hcanonical.least
  have hlarge : (mantissa.log2 : Int) + exponent - 52 ≤ value.exponent := by
    rcases Nat.eq_zero_or_pos mantissa with rfl | hpos
    · have hzero : Nat.log2 0 = 0 := by decide
      omega
    · have hless := lt_of_two_zpow (Binary.two_zpow_le hpos.ne' hlow) (h.lt_two_zpow hcanonical)
      omega
  have hlog : exponent ≤ -1074 ∨ 52 ≤ mantissa.log2 :=
    hlong.imp_right fun hfull => (Nat.le_log2 (by omega)).mpr hfull
  refine ⟨_, htarget, by omega, ?_⟩
  rcases hcanonical.normal with hfull | hlowest
  · by_cases hexponent : value.exponent = -1074
    · exact Or.inl (by omega)
    have hpower := h.two_zpow_le hfull hexponent
    split at hpower
    · next htight =>
      have hless := lt_of_two_zpow hpower hbelow
      by_cases hend : (mantissa.log2 : Int) + exponent - 52 = value.exponent
      · exact Or.inl (by omega)
      · refine Or.inr ⟨htight, by omega, hbelow.trans_le (zpow_le_zpow_right₀ one_le_two ?_)⟩
        omega
    · have hless := lt_of_two_zpow hpower hbelow
      exact Or.inl (by omega)
  · exact Or.inl (by omega)

end Nearest

/-- A mantissa that ends where it should is not shifted. -/
theorem Canonical.shiftToTargetExponent (h : value.Canonical) :
    shiftToTargetExponent .binary64 value.mantissa value.exponent .exact =
      (⟨value.mantissa, false, false⟩, value.exponent) := by
  have htarget : Format.binary64.targetExponent (totalExponent value.mantissa value.exponent) ≤
      value.exponent := by
    change max ((value.mantissa.log2 : Int) + 1 + value.exponent - 53) (-1074) ≤ _
    have hleast := h.least
    have hlog : value.mantissa.log2 < 53 := by
      rcases Nat.eq_zero_or_pos value.mantissa with hzero | hpos
      · rw [hzero]
        decide
      · exact (Nat.log2_lt hpos.ne').mpr h.fits
    omega
  have hshift : (Format.binary64.targetExponent (totalExponent value.mantissa value.exponent) -
      value.exponent).toNat = 0 := by omega
  simp only [UnpackedFloat.shiftToTargetExponent, shiftToExponent, hshift]
  exact Prod.ext rfl (Int.add_zero _)

/-- A mantissa of a power of two that is one bit too long is shifted by that bit. -/
theorem Canonical.shiftToTargetExponent_carry (h : value.Canonical)
    (hpower : value.mantissa = 2 ^ 52) :
    (UnpackedFloat.shiftToTargetExponent .binary64 (2 ^ 53) (value.exponent - 1)
        .exact).1.mantissa = value.mantissa ∧
      (UnpackedFloat.shiftToTargetExponent .binary64 (2 ^ 53) (value.exponent - 1) .exact).2 =
        value.exponent := by
  obtain ⟨hfinal, hexponent⟩ := @shiftToTargetExponent_eq .binary64 (2 ^ 53)
    (value.exponent - 1) 1 (by decide +kernel) (by
      change (-1074 : Int) ≤ value.exponent - 1 + 1
      have := h.least
      omega)
  have hhalf : 2 ^ 53 / 2 ^ 1 = value.mantissa := by
    rw [hpower]
    norm_num
  rw [hhalf] at hfinal
  rw [Int.natCast_one, Int.sub_add_cancel] at hexponent
  exact ⟨hfinal, hexponent⟩

/-- A number just below the power of two that is nearest to it is rounded up when it is cut off one bit
below. -/
theorem Nearest.roundedMantissa_below (h : value.Nearest x) (htight : value.isTight = true)
    (hbelow : x < 2 ^ (52 + value.exponent)) {extended : ExtendedMantissa}
    (hcut : CutOff extended (x / 2 ^ (value.exponent - 1))) : extended.roundedMantissa = 2 ^ 53 := by
  have hpower : value.mantissa = 2 ^ 52 := beq_iff_eq.mp (Bool.and_eq_true_iff.mp htight).1
  have hscaled : x / 2 ^ (value.exponent - 1) = 2 * (x / 2 ^ value.exponent) := by
    rw [sub_eq_add_neg, div_two_zpow_add, zpow_neg_one, div_inv_eq_mul, mul_comm]
  have hreach := h.low
  rw [reachBelow, if_pos htight, hpower] at hreach
  have hless : x / 2 ^ value.exponent < 2 ^ 52 := by
    rw [div_lt_iff₀ (by positivity)]
    exact hbelow.trans_eq (zpow_add₀ two_ne_zero _ _)
  push_cast at hreach
  rw [hscaled] at hcut
  refine hcut.roundedMantissa_eq ?_ ?_ (fun hodd => absurd hodd (by decide)) <;>
    push_cast <;> linarith

/-- A number that has been cut off, no shorter than a mantissa, is rounded to the double nearest to it. -/
theorem Nearest.roundWithAccuracy_eq (h : value.Nearest x) (hcanonical : value.Canonical)
    (hpos : 0 < value.mantissa) (sign : Sign) {mantissa : Nat} {exponent : Int} {accuracy : Accuracy}
    (hcut : CutOff (ExtendedMantissa.ofMantissaAndAccuracy mantissa accuracy) (x / 2 ^ exponent))
    (hlong : exponent ≤ -1074 ∨ 2 ^ 52 ≤ mantissa) :
    roundWithAccuracy .binary64 sign mantissa exponent accuracy =
      .finite sign value.mantissa value.exponent hpos := by
  have hmantissa : (ExtendedMantissa.ofMantissaAndAccuracy mantissa accuracy).mantissa = mantissa := by
    unfold ExtendedMantissa.ofMantissaAndAccuracy
    split <;> rfl
  obtain ⟨hlow, hhigh⟩ := hcut.mantissa_le
  rw [hmantissa] at hlow hhigh
  obtain ⟨target, htarget, hless, hcases⟩ := h.targetExponent_eq hcanonical hlow hhigh hlong
  have hshifted := hcut.shiftRight (target - exponent).toNat
  have hend : exponent + (target - exponent).toNat = target := by omega
  rw [← zpow_natCast, ← div_two_zpow_add, hend] at hshifted
  have hfirst : shiftToTargetExponent .binary64 mantissa exponent accuracy =
      (ExtendedMantissa.ofMantissaAndAccuracy mantissa accuracy >>> (target - exponent).toNat,
        target) := by
    simp only [shiftToTargetExponent, htarget, shiftToExponent, hend]
  simp only [roundWithAccuracy, hfirst]
  rcases hcases with rfl | ⟨htight, rfl, hbelow⟩
  · have hreach := value.reachBelow_le
    have hrounded := hshifted.roundedMantissa_eq (by linarith [h.low]) h.high h.odd
    simp only [hrounded, hcanonical.shiftToTargetExponent, dif_neg hpos.ne']
  · -- The mantissa is rounded up to one bit too many, which the second shift takes off.
    have hpower : value.mantissa = 2 ^ 52 := beq_iff_eq.mp (Bool.and_eq_true_iff.mp htight).1
    have hrounded := h.roundedMantissa_below htight hbelow hshifted
    obtain ⟨hfinal, hexponent⟩ := hcanonical.shiftToTargetExponent_carry hpower
    simp only [hrounded]
    obtain ⟨final, hsecond⟩ : ∃ final, UnpackedFloat.shiftToTargetExponent .binary64 (2 ^ 53)
        (value.exponent - 1) .exact = (final, value.exponent) := ⟨_, Prod.ext rfl hexponent⟩
    simp only [hsecond] at hfinal ⊢
    simp only [hfinal, dif_neg hpos.ne']

end Binary

end Patchbay
