import Patchbay.Proofs.Number.Shortest

/-!
# Doubles read back

Every double is read back from its numeral: the numeral stands for a decimal that has the double as the
nearest one, and the reader takes the double nearest to what a numeral stands for. Infinities and the one
NaN have names instead, which the reader knows.
-/

namespace Patchbay

namespace Numeral

/-! ### What numerals stand for -/

/-- The text of a numeral that stands for a number. -/
def Spells (text : List Char) (x : ℚ) : Prop :=
  ∃ digits exponent, readUnsigned? text = some (nearestDouble digits exponent) ∧ digits ≠ 0 ∧
    (digits * 10 ^ exponent : ℚ) = x

/-- Zeros in front do not count. -/
theorem natValue_zeros (count : Nat) (digits : List Char) :
    natValue (List.replicate count '0' ++ digits) = natValue digits := by
  induction count with
  | zero => rfl
  | succ count ih =>
    rw [List.replicate_succ, List.cons_append, ← ih]
    rfl

/-- A decimal written out stands for its value. -/
theorem spells_positional {x : Decimal} (h : x.digits ≠ 0) : Spells (positional x) x.value := by
  have hdigit : ∀ c ∈ nat x.digits, isDigit c = true := fun c hc => isDigit_of_mem_nat hc
  have hsome := List.length_pos_iff.mpr (nat_ne_nil x.digits)
  simp only [positional]
  split
  · next hsign =>
    obtain ⟨power, hpower⟩ := Int.eq_ofNat_of_zero_le hsign
    rw [nat_append_zeros h, hpower, Int.toNat_natCast]
    refine ⟨_, 0, readUnsigned?_digits _, Nat.mul_ne_zero h (by positivity), ?_⟩
    rw [Decimal.value, hpower, zpow_natCast]
    push_cast
    ring
  · next hsign =>
    obtain ⟨places, hplaces⟩ := Int.exists_eq_neg_ofNat (Int.le_of_lt (Int.not_le.mp hsign))
    rw [hplaces, Int.neg_neg, Int.toNat_natCast]
    split
    · next hless =>
      have hwhole : (nat x.digits).take ((nat x.digits).length - places) ≠ [] := by
        rw [← List.length_pos_iff, List.length_take]
        omega
      have hlength : ((nat x.digits).drop ((nat x.digits).length - places)).length = places := by
        rw [List.length_drop]
        omega
      have hall : ∀ c ∈ (nat x.digits).take ((nat x.digits).length - places) ++
          (nat x.digits).drop ((nat x.digits).length - places), isDigit c = true := by
        rwa [List.take_append_drop]
      have hread := readUnsigned?_pointed ⟨List.append_ne_nil_of_left_ne_nil hwhole _, hall⟩
      rw [List.take_append_drop, natValue_nat, hlength] at hread
      exact ⟨_, _, hread, h, by rw [Decimal.value, hplaces]⟩
    · next hmore =>
      obtain ⟨zeros, hzeros⟩ : ∃ zeros, places - (nat x.digits).length = zeros := ⟨_, rfl⟩
      rw [hzeros]
      have hall : ∀ c ∈ ['0'] ++ (List.replicate zeros '0' ++ nat x.digits), isDigit c = true := by
        intro c hc
        simp only [List.mem_append, List.mem_singleton, List.mem_replicate] at hc
        rcases hc with rfl | ⟨-, rfl⟩ | hc
        · decide
        · decide
        · exact hdigit c hc
      have hvalue : natValue (['0'] ++ (List.replicate zeros '0' ++ nat x.digits)) = x.digits :=
        (natValue_zeros (zeros + 1) (nat x.digits)).trans (natValue_nat x.digits)
      have hlength : (List.replicate zeros '0' ++ nat x.digits).length = places := by
        rw [List.length_append, List.length_replicate]
        omega
      have hread := readUnsigned?_pointed ⟨List.cons_ne_nil '0' _, hall⟩
      rw [hvalue, hlength] at hread
      exact ⟨_, _, hread, h, by rw [Decimal.value, hplaces]⟩

/-- So does a whole number with one decimal. -/
theorem spells_whole {n : Nat} (h : n ≠ 0) : Spells (nat n ++ ".0".toList) n := by
  have hall : ∀ c ∈ nat n ++ ['0'], isDigit c = true := by
    intro c hc
    rcases List.mem_append.mp hc with hc | hc
    · exact isDigit_of_mem_nat hc
    · obtain rfl := List.mem_singleton.mp hc
      decide
  have hvalue : natValue (nat n ++ ['0']) = n * 10 := by
    have hzero := nat_append_zeros h 1
    rw [List.replicate_one, Nat.pow_one] at hzero
    rw [hzero, natValue_nat]
  have hread := readUnsigned?_pointed ⟨List.append_ne_nil_of_left_ne_nil (nat_ne_nil n) _, hall⟩
  rw [hvalue] at hread
  refine ⟨n * 10, -1, hread, Nat.mul_ne_zero h (by decide), ?_⟩
  push_cast
  rw [zpow_neg_one, mul_inv_cancel_right₀ (by norm_num)]

/-- A magnitude names no special value. -/
theorem Magnitude.readNamed?_eq_none {magnitude : List Char} (h : Magnitude magnitude) :
    readNamed? magnitude = none := by
  obtain ⟨c, rest, rfl, hc⟩ := h.exists_cons
  exact readNamed?_of_isDigit hc rest

/-! ### The reader -/

variable {value : Binary} {x : ℚ}

/-- The double that the reader takes for a decimal is the one nearest to it. -/
theorem unpack_nearestDouble {digits : Nat} {exponent : Int}
    (h : value.Nearest (digits * 10 ^ exponent)) (hcanonical : value.Canonical)
    (hpos : 0 < value.mantissa) (hmost : value.exponent ≤ 971) (hdigits : digits ≠ 0) :
    (nearestDouble digits exponent).toModel.unpack =
      .finite .positive value.mantissa value.exponent hpos := by
  obtain ⟨hlow, hhigh⟩ := h.bounds hcanonical hpos hmost
  obtain ⟨count, hcount, hleast, hless⟩ := Shortest.digitCount_bounds (Nat.pos_of_ne_zero hdigits)
  have hten : (1 : ℚ) < 10 := by norm_num
  have hpowers : (2 : ℚ) ^ 1200 ≤ 10 ^ 400 := by
    calc (2 : ℚ) ^ 1200 = (2 ^ 3) ^ 400 := by rw [← pow_mul]
      _ ≤ 10 ^ 400 := pow_le_pow_left₀ (by norm_num) (by norm_num) 400
  have hupper : exponent + count < 400 := by
    refine (zpow_lt_zpow_iff_right₀ hten).mp ?_
    calc (10 : ℚ) ^ (exponent + count) = (10 ^ count : Nat) * 10 ^ exponent := by
          rw [zpow_add₀ (by norm_num), zpow_natCast, mul_comm]
          push_cast
          rfl
      _ ≤ digits * 10 ^ exponent := by gcongr
      _ < 2 ^ (1024 : Int) := hhigh
      _ ≤ 2 ^ (1200 : Int) := zpow_le_zpow_right₀ one_le_two (by decide)
      _ ≤ 10 ^ (400 : Int) := hpowers
  have hlower : -400 < exponent + (count + 1) := by
    refine (zpow_lt_zpow_iff_right₀ hten).mp ?_
    calc (10 : ℚ) ^ (-400 : Int) ≤ 2 ^ (-1200 : Int) := inv_anti₀ (by positivity) hpowers
      _ ≤ 2 ^ (-1075 : Int) := zpow_le_zpow_right₀ one_le_two (by decide)
      _ ≤ digits * 10 ^ exponent := hlow
      _ < (10 ^ (count + 1) : Nat) * 10 ^ exponent := by gcongr
      _ = 10 ^ (exponent + (count + 1)) := by
          rw [zpow_add₀ (by norm_num) exponent, ← Nat.cast_succ, zpow_natCast, mul_comm,
            Nat.cast_pow, Nat.cast_ofNat]
  have hvalue := Double.unpack_ofScientific h hcanonical hpos hmost (Nat.pos_of_ne_zero hdigits)
  simp only [nearestDouble, hcount]
  rw [if_neg, if_neg]
  · exact hvalue
  · push_cast
    omega
  · simp only [Bool.or_eq_true, decide_eq_true_eq, not_or]
    push_cast
    exact ⟨hdigits, by omega⟩

/-- What a numeral stands for is nearest to one double: the numeral is read as that, on either side of
zero. -/
theorem readDouble?_signed {magnitude : List Char} (hmagnitude : Magnitude magnitude)
    (hspells : Spells magnitude x) (h : value.Nearest x) (hcanonical : value.Canonical)
    (hpos : 0 < value.mantissa) (hmost : value.exponent ≤ 971) :
    ∃ y, readDouble? (signed value.negative magnitude) = some y ∧
      Binary.ofDouble? y = some value := by
  obtain ⟨digits, exponent, hread, hdigits, rfl⟩ := hspells
  have hunpack := unpack_nearestDouble h hcanonical hpos hmost hdigits
  refine ⟨_, by
    simp only [readDouble?, hmagnitude.splitSign_signed, hmagnitude.readNamed?_eq_none, hread]
    rfl, Double.ofDouble?_of_unpack hpos ?_⟩
  cases hsign : value.negative with
  | false => exact hunpack
  | true =>
    change (Float.Model.pack (nearestDouble digits exponent).toModel.unpack.neg).unpack = _
    rw [hunpack]
    exact Double.unpack_pack_canonical hcanonical hpos hmost .negative

/-- A double is nearest to its own magnitude. -/
theorem nearest_self (value : Binary) :
    value.Nearest (value.mantissa * 2 ^ value.exponent) := by
  have hself : (value.mantissa * 2 ^ value.exponent : ℚ) / 2 ^ value.exponent = value.mantissa :=
    mul_div_cancel_right₀ _ (by positivity)
  have hreach : 0 ≤ value.reachBelow := by
    unfold Binary.reachBelow
    split <;> norm_num
  constructor <;> rw [hself]
  · linarith
  · linarith
  · exact fun _ => ⟨by linarith, by linarith⟩

/-- The whole part of a whole number is all of it. -/
theorem wholePart_eq (hcanonical : value.Canonical) (hwhole : value.isWhole = true) :
    (value.wholePart : ℚ) = value.mantissa * 2 ^ value.exponent := by
  have hsize := hcanonical.wholePart.2.2.1.mp hwhole
  have hleast := hcanonical.least
  obtain ⟨power, hpower⟩ := Int.eq_ofNat_of_zero_le (by omega : 0 ≤ value.exponent + 1074)
  rw [Binary.size, Binary.unit, hpower, Int.toNat_natCast] at hsize
  have hcast := congrArg (Nat.cast : ℕ → ℚ) hsize
  rw [Nat.cast_mul, Nat.cast_mul, Nat.cast_pow, Nat.cast_pow, Nat.cast_ofNat] at hcast
  rw [show value.exponent = power - (1074 : Nat) by omega, zpow_sub₀ two_ne_zero, zpow_natCast,
    zpow_natCast, ← mul_div_assoc, hcast, mul_div_cancel_right₀ _ (by positivity)]

/-- The numeral of a finite double other than zero stands for a number that has the double as the nearest
one. -/
theorem exists_spelling {y : Float} (hvalue : Binary.ofDouble? y = some value)
    (hpos : 0 < value.mantissa) : ∃ magnitude x, atomDouble y = signed value.negative magnitude ∧
      Magnitude magnitude ∧ Spells magnitude x ∧ value.Nearest x := by
  have hcanonical := Double.canonical hvalue
  simp only [atomDouble, hvalue]
  split
  · next hsmall =>
    have hwhole := wholePart_eq hcanonical (Bool.and_eq_true_iff.mp hsmall).1
    have hsome : value.wholePart ≠ 0 := by
      rintro hzero
      rw [hzero, Nat.cast_zero, eq_comm, mul_eq_zero] at hwhole
      rcases hwhole with hnone | hnone
      · exact hpos.ne' (Nat.cast_eq_zero.mp hnone)
      · exact absurd hnone (by positivity)
    have hdigits : ∀ c ∈ nat value.wholePart ++ ['0'], isDigit c = true := by
      intro c hc
      rcases List.mem_append.mp hc with hc | hc
      · exact isDigit_of_mem_nat hc
      · obtain rfl := List.mem_singleton.mp hc
        decide
    exact ⟨_, _, rfl, .pointed (nat_ne_nil _) (List.cons_ne_nil '0' []) hdigits,
      spells_whole hsome, hwhole ▸ nearest_self value⟩
  · have hdigits := Binary.shortest_ne_zero .double hpos.ne'
    exact ⟨_, _, rfl, magnitude_positional hdigits, spells_positional hdigits,
      hcanonical.nearest_shortest hpos⟩

/-- Every double is read back from its numeral, or from its name. -/
theorem readsBack (y : Float) : ReadsBack y := by
  cases hvalue : Binary.ofDouble? y with
  | some value =>
    have hcanonical := Double.canonical hvalue
    rcases Nat.eq_zero_or_pos value.mantissa with hzero | hpos
    · obtain ⟨negative, mantissa, exponent⟩ := value
      obtain rfl : mantissa = 0 := hzero
      obtain rfl : exponent = -1074 :=
        hcanonical.normal.resolve_left (Nat.not_le.mpr (Nat.two_pow_pos 52))
      cases negative with
      | false =>
        obtain rfl : y = 0.0 := Double.eq_of_ofDouble? hvalue (by decide +kernel)
        decide +kernel
      | true =>
        obtain rfl : y = -0.0 := Double.eq_of_ofDouble? hvalue (by decide +kernel)
        decide +kernel
    · obtain ⟨magnitude, x, htext, hmagnitude, hspells, h⟩ := exists_spelling hvalue hpos
      obtain ⟨z, hread, hz⟩ := readDouble?_signed hmagnitude hspells h hcanonical hpos
        (Double.exponent_le hvalue)
      rw [ReadsBack, htext, hread, Double.eq_of_ofDouble? hvalue hz]
  | none =>
    rcases Double.eq_special hvalue with rfl | rfl | rfl <;> decide +kernel

end Numeral

end Patchbay
