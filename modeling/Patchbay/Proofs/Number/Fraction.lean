import Patchbay.Proofs.Number.Integers

/-!
# Doubles as fractions

The exact value of a finite double is a fraction. Doubles compare like their fractions, and rounding a
double to an integer goes by the floor or the ceiling of its fraction, up to the range of integers.

An integer is rounded when it is taken as a double. Rounding does not pass by any double, so comparing the
rounded integer with a double is comparing the integer itself, unless rounding has made the two equal.
-/

namespace Patchbay

namespace Binary

/-- The value as a fraction. -/
def toRat (value : Binary) : ℚ :=
  (if value.negative then -1 else 1) * value.mantissa * 2 ^ value.exponent

variable {value a b : Binary}

/-- There are units in one, as a fraction. -/
theorem unit_pos_rat : (0 : ℚ) < unit := Nat.cast_pos.mpr unit_pos

/-- The value is what its units make. -/
theorem Canonical.toRat_mul_unit (h : value.Canonical) : value.toRat * unit = value.units := by
  have hpower : (2 : ℚ) ^ value.exponent * unit = (2 ^ (value.exponent + 1074).toNat : Nat) := by
    have hleast : 0 ≤ value.exponent + 1074 := by linarith [h.least]
    rw [unit, Nat.cast_pow, Nat.cast_pow, Nat.cast_ofNat, ← zpow_natCast, ← zpow_natCast,
      ← zpow_add₀ two_ne_zero, Int.toNat_of_nonneg hleast]
    rfl
  rw [toRat, mul_assoc, hpower, units, size]
  cases value.negative <;> simp

/-- Values are in the order of their units. -/
theorem Canonical.toRat_lt_toRat (ha : a.Canonical) (hb : b.Canonical) :
    a.toRat < b.toRat ↔ a.units < b.units := by
  rw [← mul_lt_mul_iff_left₀ unit_pos_rat, ha.toRat_mul_unit, hb.toRat_mul_unit, Int.cast_lt]

/-- They are equal if they are as many units. -/
theorem Canonical.toRat_inj (ha : a.Canonical) (hb : b.Canonical) :
    a.toRat = b.toRat ↔ a.units = b.units := by
  rw [← mul_left_inj' unit_pos_rat.ne', ha.toRat_mul_unit, hb.toRat_mul_unit, Int.cast_inj]

/-- Rounding down goes to the floor of the value, which is short. -/
theorem Canonical.floor_eq (h : value.Canonical) :
    value.floor = ⌊value.toRat⌋ ∧ Short ⌊value.toRat⌋.natAbs := by
  obtain ⟨hle, hlt, hshort⟩ := h.floor
  have hfloor : ⌊value.toRat⌋ = value.floor := by
    rw [Int.floor_eq_iff, ← mul_le_mul_iff_left₀ unit_pos_rat, ← mul_lt_mul_iff_left₀ unit_pos_rat,
      h.toRat_mul_unit]
    exact_mod_cast And.intro hle hlt
  exact ⟨hfloor.symm, hfloor ▸ hshort⟩

/-- Rounding up goes to the ceiling of the value, which is short. -/
theorem Canonical.ceil_eq (h : value.Canonical) :
    value.ceil = ⌈value.toRat⌉ ∧ Short ⌈value.toRat⌉.natAbs := by
  obtain ⟨hlt, hle, hshort⟩ := h.ceil
  have hceil : ⌈value.toRat⌉ = value.ceil := by
    rw [Int.ceil_eq_iff, ← mul_le_mul_iff_left₀ unit_pos_rat, ← mul_lt_mul_iff_left₀ unit_pos_rat,
      h.toRat_mul_unit]
    exact_mod_cast And.intro hlt hle
  exact ⟨hceil.symm, hceil ▸ hshort⟩

end Binary

namespace Double

/-- The exact value of a finite double as a fraction. Infinities and NaN have none. -/
def fraction? (x : Float) : Option ℚ := (Binary.ofDouble? x).map Binary.toRat

variable {x y : Float} {p q : ℚ}

/-- Finite doubles are in the order of their exact values. -/
theorem lt_iff_fraction (hx : fraction? x = some p) (hy : fraction? y = some q) : x < y ↔ p < q := by
  obtain ⟨a, ha, rfl⟩ := Option.map_eq_some_iff.mp hx
  obtain ⟨b, hb, rfl⟩ := Option.map_eq_some_iff.mp hy
  rw [lt_iff_units ha hb, (canonical ha).toRat_lt_toRat (canonical hb)]

/-- They are equal if their exact values are. -/
theorem beq_iff_fraction (hx : fraction? x = some p) (hy : fraction? y = some q) :
    (x == y) = true ↔ p = q := by
  obtain ⟨a, ha, rfl⟩ := Option.map_eq_some_iff.mp hx
  obtain ⟨b, hb, rfl⟩ := Option.map_eq_some_iff.mp hy
  rw [beq_iff_units ha hb, (canonical ha).toRat_inj (canonical hb)]

/-- A double that holds an integer has just that value. -/
theorem Holds.fraction {k : Int} (h : Holds x k) : fraction? x = some (k : ℚ) := by
  obtain ⟨value, hvalue, hunits⟩ := h
  have hexact : value.toRat = k := by
    rw [← mul_left_inj' Binary.unit_pos_rat.ne', (canonical hvalue).toRat_mul_unit, hunits]
    push_cast
    rfl
  rw [fraction?, hvalue, Option.map_some, hexact]

/-- The whole numbers next to a finite double are short. -/
theorem short_of_fraction (hx : fraction? x = some q) :
    Binary.Short ⌊q⌋.natAbs ∧ Binary.Short ⌈q⌉.natAbs := by
  obtain ⟨value, hvalue, rfl⟩ := Option.map_eq_some_iff.mp hx
  exact ⟨(canonical hvalue).floor_eq.2, (canonical hvalue).ceil_eq.2⟩

end Double

namespace Long

variable {m n : Int64} {x : Float} {q : ℚ}

/-! ### Rounding doubles -/

/-- Rounding a double down makes the last integer that is not above it, if there is one. -/
theorem toInt_floor (hx : Double.fraction? x = some q) (hm : m.toInt ≤ q) :
    ((ofDouble Binary.floor x).toInt : ℚ) ≤ q ∧ m.toInt ≤ (ofDouble Binary.floor x).toInt := by
  have hclamp : ofDouble Binary.floor x = clamp ⌊q⌋ := by
    obtain ⟨value, hvalue, rfl⟩ := Option.map_eq_some_iff.mp hx
    rw [← (Double.canonical hvalue).floor_eq.1]
    simp only [ofDouble, hvalue]
  have hfloor : m.toInt ≤ ⌊q⌋ := Int.le_floor.mpr hm
  have hlow := Int64.le_toInt m
  have hhigh := Int64.toInt_lt m
  rw [hclamp, ← Int.le_floor, toInt_clamp]
  omega

/-- Rounding it up makes the first integer that is not below it, if there is one. -/
theorem toInt_ceil (hx : Double.fraction? x = some q) (hm : q ≤ m.toInt) :
    q ≤ (ofDouble Binary.ceil x).toInt ∧ (ofDouble Binary.ceil x).toInt ≤ m.toInt := by
  have hclamp : ofDouble Binary.ceil x = clamp ⌈q⌉ := by
    obtain ⟨value, hvalue, rfl⟩ := Option.map_eq_some_iff.mp hx
    rw [← (Double.canonical hvalue).ceil_eq.1]
    simp only [ofDouble, hvalue]
  have hceil : ⌈q⌉ ≤ m.toInt := Int.ceil_le.mpr hm
  have hlow := Int64.le_toInt m
  have hhigh := Int64.toInt_lt m
  rw [hclamp, ← Int.ceil_le, toInt_clamp]
  omega

/-! ### Comparing integers with doubles -/

/-- Rounding an integer does not pass by any double. -/
theorem exists_fraction_toDouble (n : Int64) :
    ∃ rounded : ℚ, Double.fraction? (toDouble n) = some rounded ∧ ∀ x q, Double.fraction? x = some q →
      (n.toInt ≤ q → rounded ≤ q) ∧ (q ≤ n.toInt → q ≤ rounded) := by
  obtain ⟨rounded, hholds, hbetween⟩ := exists_holds_toDouble n
  refine ⟨rounded, hholds.fraction, fun x q hx => ?_⟩
  obtain ⟨hfloor, hceil⟩ := Double.short_of_fraction hx
  constructor
  · intro hbelow
    exact Int.le_floor.mp ((hbetween _ hfloor).2 (Int.le_floor.mpr hbelow))
  · intro habove
    exact Int.ceil_le.mp ((hbetween _ hceil).1 (Int.ceil_le.mpr habove))

/-- An integer taken as a double is below another double if it is below it itself, and rounding does not
make the two equal. -/
theorem toDouble_lt_iff (hx : Double.fraction? x = some q) :
    toDouble n < x ↔ n.toInt < q ∧ (toDouble n == x) = false := by
  obtain ⟨rounded, hrounded, hbetween⟩ := exists_fraction_toDouble n
  obtain ⟨hbelow, habove⟩ := hbetween x q hx
  rw [Double.lt_iff_fraction hrounded hx, Bool.eq_false_iff, Ne, Double.beq_iff_fraction hrounded hx]
  constructor
  · intro hlt
    exact ⟨lt_of_not_ge fun hge => hlt.not_ge (habove hge), hlt.ne⟩
  · rintro ⟨hlt, hne⟩
    exact lt_of_le_of_ne (hbelow hlt.le) hne

/-- It is above another double if it is above it itself, and rounding does not make the two equal. -/
theorem lt_toDouble_iff (hx : Double.fraction? x = some q) :
    x < toDouble n ↔ q < n.toInt ∧ (toDouble n == x) = false := by
  obtain ⟨rounded, hrounded, hbetween⟩ := exists_fraction_toDouble n
  obtain ⟨hbelow, habove⟩ := hbetween x q hx
  rw [Double.lt_iff_fraction hx hrounded, Bool.eq_false_iff, Ne, Double.beq_iff_fraction hrounded hx]
  constructor
  · intro hlt
    exact ⟨lt_of_not_ge fun hge => hlt.not_ge (hbelow hge), hlt.ne'⟩
  · rintro ⟨hlt, hne⟩
    exact lt_of_le_of_ne (habove hlt.le) (Ne.symm hne)

/-- Rounding makes an integer equal to a double of another value only if it is beyond 2^53. -/
theorem two_pow_lt_of_rounds (hx : Double.fraction? x = some q) (hne : n.toInt ≠ q)
    (h : (toDouble n == x) = true) : 2 ^ 53 < n.toInt.natAbs := by
  by_contra hless
  have hshort : Binary.Short n.toInt.natAbs := by
    rcases Nat.lt_or_eq_of_le (Nat.le_of_not_lt hless) with hsmall | hedge
    · exact .of_lt hsmall
    · exact Binary.short_of_two_pow 53 hedge
  have hown := (Double.holds_ofInt hshort (natAbs_toInt_le n)).fraction
  exact hne ((Double.beq_iff_fraction hown hx).mp h)

/-- An integer that is not below a double when it is taken as one is not below it itself, or it is rounded
up to it. -/
theorem not_toDouble_lt_iff (hx : Double.fraction? x = some q) :
    ¬ toDouble n < x ↔ q ≤ n.toInt ∨ (toDouble n == x) = true ∧ 2 ^ 53 < n.toInt.natAbs := by
  rw [toDouble_lt_iff hx, not_and, Bool.not_eq_false]
  constructor
  · intro h
    by_cases hlt : (n.toInt : ℚ) < q
    · exact Or.inr ⟨h hlt, two_pow_lt_of_rounds hx hlt.ne (h hlt)⟩
    · exact Or.inl (le_of_not_gt hlt)
  · rintro (hle | ⟨hequal, -⟩) hlt
    · exact absurd hlt hle.not_gt
    · exact hequal

/-- One that is not above a double then is not above it itself, or it is rounded down to it. -/
theorem not_lt_toDouble_iff (hx : Double.fraction? x = some q) :
    ¬ x < toDouble n ↔ n.toInt ≤ q ∨ (toDouble n == x) = true ∧ 2 ^ 53 < n.toInt.natAbs := by
  rw [lt_toDouble_iff hx, not_and, Bool.not_eq_false]
  constructor
  · intro h
    by_cases hlt : q < n.toInt
    · exact Or.inr ⟨h hlt, two_pow_lt_of_rounds hx hlt.ne' (h hlt)⟩
    · exact Or.inl (le_of_not_gt hlt)
  · rintro (hle | ⟨hequal, -⟩) hlt
    · exact absurd hlt hle.not_gt
    · exact hequal

end Long

end Patchbay
