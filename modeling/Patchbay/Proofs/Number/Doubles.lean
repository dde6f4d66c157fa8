import Mathlib
import Patchbay.Proofs.Number.Numerals

/-!
# Doubles

What is used of double precision: only a NaN differs from itself, an integer never becomes a NaN, and
a run of digits stands for the same double whether it is read as an integer first or not.
-/

namespace Patchbay

open Float.Model (UnpackedFloat Format)
open Float.Model.UnpackedFloat (packComponents unpackExponent unpackMantissa)

namespace Double

/-- Only a NaN differs from itself. -/
theorem beq_self {x : Float} (h : x.isNaN = false) : (x == x) = true := by
  rw [Float.isNaN_eq_decide_eq_nan, decide_eq_false_iff_not] at h
  exact Float.beq_self_iff.mpr h

/-- What is above something is no NaN. -/
theorem isNaN_of_gt {x limit : Float} (h : x > limit) : x.isNaN = false := by
  have hless : limit.toModel.unpack.lt x.toModel.unpack = true := of_decide_eq_true h
  change x.toModel.unpack.isNaN = false
  cases hx : x.toModel.unpack with
  | notANumber =>
    rw [hx] at hless
    cases hlimit : limit.toModel.unpack <;> rw [hlimit] at hless <;> cases hless
  | infinity | zero | finite => rfl

/-- A finite double has an exact value. -/
theorem exists_of_isFinite {x : Float} (h : x.isFinite = true) :
    ∃ value, Binary.ofDouble? x = some value := by
  let power : BitVec 11 := @unpackExponent Format.binary64 x.toBits.toBitVec
  have hfield : power.toNat = x.toBits.toNat >>> 52 % 2048 := by simp [power, unpackExponent]
  have hpower : x.toBits.toNat >>> 52 % 2048 ≠ 2047 := by
    intro hpower
    have htop : power = -1#11 := BitVec.eq_of_toNat_eq (by rw [hfield, hpower]; rfl)
    change (UnpackedFloat.unpack .binary64 x.toBits.toBitVec).isFinite = true at h
    simp only [power] at htop
    simp only [UnpackedFloat.unpack, htop, if_true] at h
    split at h <;> cases h
  unfold Binary.ofDouble? Binary.ofBits?
  simp only [show BinaryFormat.double.topPower = 2047 from rfl,
    show BinaryFormat.double.fractionBits = 52 from rfl, if_neg hpower]
  split <;> exact ⟨_, rfl⟩

/-- A finite double is no NaN. -/
theorem isNaN_of_isFinite {x : Float} (h : x.isFinite = true) : x.isNaN = false := by
  change x.toModel.unpack.isFinite = true at h
  change x.toModel.unpack.isNaN = false
  cases hx : x.toModel.unpack with
  | notANumber | infinity =>
    rw [hx] at h
    cases h
  | zero | finite => rfl

/-- The fields of a double make a NaN only at the top power, and only with a fraction. -/
theorem isNaN_unpack {sign : UnpackedFloat.Sign} {exponent : BitVec 11} {mantissa : BitVec 52}
    (h : exponent = -1#11 → mantissa = 0#52) :
    (UnpackedFloat.unpack .binary64
      (packComponents .binary64 sign exponent mantissa)).isNaN = false := by
  simp only [UnpackedFloat.unpack, UnpackedFloat.unpackExponent_packComponents,
    UnpackedFloat.unpackMantissa_packComponents]
  split
  · next htop =>
    rw [if_pos (h htop)]
    rfl
  split
  · split <;> rfl
  · rfl

/-- What is no NaN is none when it is put into bits. -/
theorem isNaN_pack {value : UnpackedFloat} (h : value.isNaN = false) :
    (Float.Model.pack value).unpack.isNaN = false := by
  change (UnpackedFloat.unpack .binary64 (UnpackedFloat.pack .binary64 value)).isNaN = false
  fun_cases UnpackedFloat.pack .binary64 value with
  | case1 => cases h
  | case2 => exact isNaN_unpack fun _ => rfl
  | case3 => exact isNaN_unpack fun htop => absurd htop (by decide)
  | case4 => exact isNaN_unpack fun _ => rfl
  | case5 _ mantissa exponent _ _ power hsmall =>
    refine isNaN_unpack fun htop => absurd (congrArg BitVec.toNat htop) ?_
    have hpower : power < 2047 := by simpa using hsmall
    simp only [BitVec.toNat_ofNat]
    rw [Nat.mod_eq_of_lt (by omega)]
    show power ≠ 2047
    omega
  | case6 => exact isNaN_unpack fun htop => absurd htop (by decide)

/-- Rounding makes no NaN. -/
theorem isNaN_round (sign : UnpackedFloat.Sign) (mantissa : Nat) (exponent : Int)
    (accuracy : UnpackedFloat.Accuracy) :
    (UnpackedFloat.roundWithAccuracy .binary64 sign mantissa exponent accuracy).isNaN = false := by
  unfold UnpackedFloat.roundWithAccuracy
  dsimp only
  split <;> rfl

/-- A number is no NaN. -/
theorem isNaN_finite (sign : UnpackedFloat.Sign) (mantissa : Nat) (exponent : Int)
    (hpos : 0 < mantissa) : (UnpackedFloat.finite sign mantissa exponent hpos).isNaN = false := rfl

/-- A product with a number other than zero makes no NaN. -/
theorem isNaN_mul {value factor : UnpackedFloat} (h : value.isNaN = false)
    (hfactor : ∃ sign mantissa exponent hpos, factor = .finite sign mantissa exponent hpos) :
    (UnpackedFloat.mul .binary64 value factor).isNaN = false := by
  obtain ⟨sign, mantissa, exponent, hpos, rfl⟩ := hfactor
  cases value with
  | notANumber => cases h
  | infinity | zero => rfl
  | finite => exact isNaN_round _ _ _ _

/-- Nor does a quotient by one. -/
theorem isNaN_div {value divisor : UnpackedFloat} (h : value.isNaN = false)
    (hdivisor : ∃ sign mantissa exponent hpos, divisor = .finite sign mantissa exponent hpos) :
    (UnpackedFloat.div .binary64 value divisor).isNaN = false := by
  obtain ⟨sign, mantissa, exponent, hpos, rfl⟩ := hdivisor
  cases value with
  | notANumber => cases h
  | infinity | zero => rfl
  | finite => exact isNaN_round _ _ _ _

/-- Normalizing makes no NaN. -/
theorem isNaN_normalize (n : Nat) :
    (UnpackedFloat.ofUInt64 .binary64 n.toUInt64).isNaN = false := by
  unfold UnpackedFloat.ofUInt64 UnpackedFloat.ofNat UnpackedFloat.ofInt UnpackedFloat.normalize
  split
  · exact isNaN_round _ _ _ _
  · rfl
  · exact isNaN_round _ _ _ _

/-- The powers of ten of which there is a table are numbers other than zero. -/
theorem exists_powerOfTen {power : Nat} (h : power ≤ 22)
    (hsize : power < Float.exactlyRepresentablePowersOfTen.size) :
    ∃ sign mantissa exponent hpos,
      Float.exactlyRepresentablePowersOfTen[power].toModel.unpack = .finite sign mantissa exponent hpos := by
  have htable : ∀ index : Fin 23,
      0.0 < Float.exactlyRepresentablePowersOfTen[index] ∧
        Float.exactlyRepresentablePowersOfTen[index].isFinite = true := by
    decide +kernel
  obtain ⟨hpositive, hfinite⟩ := htable ⟨power, Nat.lt_succ_of_le h⟩
  have hless : (0.0 : Float).toModel.unpack.lt
      Float.exactlyRepresentablePowersOfTen[power].toModel.unpack = true := of_decide_eq_true hpositive
  change Float.exactlyRepresentablePowersOfTen[power].toModel.unpack.isFinite = true at hfinite
  cases hunpack : Float.exactlyRepresentablePowersOfTen[power].toModel.unpack with
  | notANumber | infinity =>
    rw [hunpack] at hfinite
    cases hfinite
  | zero =>
    rw [hunpack] at hless
    cases hless
  | finite sign mantissa exponent hpos => exact ⟨sign, mantissa, exponent, hpos, rfl⟩

/-- Rounding a decimal makes no NaN, however large or small the decimal is. -/
theorem isNaN_unpackedScientific (digits : Nat) (exponent : Int) :
    (UnpackedFloat.ofScientific .binary64 digits exponent).isNaN = false := by
  unfold UnpackedFloat.ofScientific
  split
  · rfl
  split
  · rfl
  split
  · rfl
  split
  · exact isNaN_mul (isNaN_finite _ _ _ _) ⟨_, _, _, _, rfl⟩
  · exact isNaN_div (isNaN_finite _ _ _ _) ⟨_, _, _, _, rfl⟩

/-- The double made of a decimal is no NaN. -/
theorem isNaN_ofScientific (digits : Nat) (negative : Bool) (power : Nat) :
    (Float.ofScientific digits negative power).isNaN = false := by
  change (Float.ofScientific digits negative power).toModel.unpack.isNaN = false
  unfold Float.ofScientific
  split
  · -- Few digits are multiplied by a power of ten of the table, or divided by it.
    next hsmall =>
    have hsize : power < Float.exactlyRepresentablePowersOfTen.size := Nat.lt_succ_of_le hsmall.2
    have hten := exists_powerOfTen hsmall.2 hsize
    have hdigits : digits.toUInt64.toFloat.toModel.unpack.isNaN = false :=
      isNaN_pack (isNaN_normalize digits)
    dsimp only
    split
    · exact isNaN_pack (isNaN_div hdigits hten)
    · exact isNaN_pack (isNaN_mul hdigits hten)
  · exact isNaN_pack (isNaN_unpackedScientific digits _)

/-- Nor is the double nearest to a natural number. -/
theorem isNaN_ofNat (n : Nat) : (Float.ofNat n).isNaN = false := isNaN_ofScientific n false 0

/-- What is no NaN is none with the other sign. -/
theorem isNaN_neg {x : Float} (h : x.isNaN = false) : (-x).isNaN = false := by
  change x.toModel.unpack.isNaN = false at h
  change (Float.Model.pack x.toModel.unpack.neg).unpack.isNaN = false
  refine isNaN_pack ?_
  cases hx : x.toModel.unpack with
  | notANumber =>
    rw [hx] at h
    cases h
  | infinity | zero | finite => rfl

end Double

/-- The double nearest to an integer is no NaN. -/
theorem Long.isNaN_toDouble (n : Int64) : (Long.toDouble n).isNaN = false := by
  unfold Long.toDouble Float.ofInt
  split
  · exact Double.isNaN_ofNat _
  · exact Double.isNaN_neg (Double.isNaN_ofNat _)

namespace Numeral

/-- A digit stays as it is in lower case. -/
theorem toLower_of_isDigit {c : Char} (h : isDigit c = true) : c.toLower = c := by
  have hle : c.val ≤ '9'.val := by
    simp only [isDigit, Bool.and_eq_true, decide_eq_true_eq] at h
    exact h.2
  have hnine : '9'.val < 'A'.val := by decide
  have hsmall : ¬ 'A'.val ≤ c.val := UInt32.not_le.mpr (UInt32.lt_of_le_of_lt hle hnine)
  unfold Char.toLower
  split
  · next hupper => exact absurd hupper.1 hsmall
  · rfl

/-- The names of special values start with two letters only. -/
theorem readNamed?_of_toLower {c : Char} (hinf : c.toLower ≠ 'i') (hnan : c.toLower ≠ 'n')
    (rest : List Char) : readNamed? (c :: rest) = none := by
  have hother : ∀ (letter : Char) (name : List Char), c.toLower ≠ letter →
      (c :: rest).map Char.toLower ≠ letter :: name := fun letter name hletter heq =>
    hletter (List.cons.inj heq).1
  simp only [readNamed?]
  rw [if_neg, if_neg]
  · exact hother 'n' "an".toList hnan
  · rw [Bool.or_eq_true, decide_eq_true_eq, decide_eq_true_eq, not_or]
    exact ⟨hother 'i' "nf".toList hinf, hother 'i' "nfinity".toList hinf⟩

/-- A text that starts with a digit names no special value. -/
theorem readNamed?_of_isDigit {c : Char} (h : isDigit c = true) (rest : List Char) :
    readNamed? (c :: rest) = none := by
  have hlower := toLower_of_isDigit h
  refine readNamed?_of_toLower ?_ ?_ rest <;>
    · rintro heq
      rw [hlower.symm.trans heq] at h
      exact absurd h (by decide)

/-- Digits alone are read as a whole number. -/
theorem Digits.readUnsigned? {digits : List Char} (h : Digits digits) :
    readUnsigned? digits = some (nearestDouble (natValue digits) 0) := by
  have htake : digits.takeWhile isDigit = digits := List.takeWhile_eq_self_iff.mpr h.2
  have hdrop : digits.dropWhile isDigit = [] := List.dropWhile_eq_nil_iff.mpr h.2
  have hsome : digits.isEmpty = false := by simpa using h.1
  simp only [Numeral.readUnsigned?, htake, hdrop, hsome, List.append_nil, readExponent?]
  rfl

/-- So are the digits of a number. -/
theorem readUnsigned?_digits (n : Nat) : readUnsigned? (nat n) = some (nearestDouble n 0) := by
  rw [(digits_nat n).readUnsigned?, natValue_nat]

/-- Digits with a point somewhere are read as one number with so many places. -/
theorem readUnsigned?_pointed {whole fraction : List Char} (h : Digits (whole ++ fraction)) :
    readUnsigned? (whole ++ '.' :: fraction) =
      some (nearestDouble (natValue (whole ++ fraction)) (-(fraction.length : Int))) := by
  have hbefore : ∀ c ∈ whole, isDigit c = true := fun c hc => h.2 c (List.mem_append_left _ hc)
  have hbehind : ∀ c ∈ fraction, isDigit c = true := fun c hc => h.2 c (List.mem_append_right _ hc)
  have hpoint : isDigit '.' = false := by decide
  have htake : (whole ++ '.' :: fraction).takeWhile isDigit = whole := by
    rw [List.takeWhile_append_of_pos hbefore, List.takeWhile_cons_of_neg (by simp [hpoint]),
      List.append_nil]
  have hdrop : (whole ++ '.' :: fraction).dropWhile isDigit = '.' :: fraction := by
    rw [List.dropWhile_append_of_pos hbefore, List.dropWhile_cons_of_neg (by simp [hpoint])]
  have hrest : fraction.takeWhile isDigit = fraction := List.takeWhile_eq_self_iff.mpr hbehind
  have hend : fraction.dropWhile isDigit = [] := List.dropWhile_eq_nil_iff.mpr hbehind
  have hsome : (whole.isEmpty && fraction.isEmpty) = false := by
    simpa [← not_and_or] using h.1
  simp only [readUnsigned?, htake, hdrop, hrest, hend, hsome, Bool.false_eq_true, if_false, readExponent?,
    Option.map_some, Int.zero_sub]

/-- A numeral that starts with a digit or a point is read behind a sign. -/
theorem readDouble?_signed_of_head {c : Char} {rest : List Char} (hc : isDigit c = true ∨ c = '.')
    {magnitude : Float} (h : readUnsigned? (c :: rest) = some magnitude) (minus : Bool) :
    readDouble? (signed minus (c :: rest)) = some (if minus then -magnitude else magnitude) := by
  have hsign : splitSign (signed minus (c :: rest)) = (minus, c :: rest) := by
    refine splitSign_signed_of_ne ?_ rest minus
    rcases hc with hdigit | rfl
    · exact ne_sign_of_isDigit hdigit
    · decide
  have hnamed : readNamed? (c :: rest) = none := by
    rcases hc with hdigit | rfl
    · exact readNamed?_of_isDigit hdigit rest
    · exact readNamed?_of_toLower (by decide) (by decide) rest
  simp only [readDouble?, hsign, hnamed, h]
  rfl

/-- Digits behind a sign are read as a double. -/
theorem Digits.readDouble?_signed {digits : List Char} (h : Digits digits) (minus : Bool) :
    readDouble? (signed minus digits) =
      some (if minus then -nearestDouble (natValue digits) 0 else nearestDouble (natValue digits) 0) := by
  obtain ⟨c, rest, rfl⟩ := List.exists_cons_of_ne_nil h.1
  exact readDouble?_signed_of_head (Or.inl (h.2 c List.mem_cons_self)) h.readUnsigned? minus

/-- So are digits with a point somewhere. -/
theorem readDouble?_signed_pointed {whole fraction : List Char} (h : Digits (whole ++ fraction))
    (minus : Bool) :
    readDouble? (signed minus (whole ++ '.' :: fraction)) =
      some (if minus then -nearestDouble (natValue (whole ++ fraction)) (-(fraction.length : Int))
        else nearestDouble (natValue (whole ++ fraction)) (-(fraction.length : Int))) := by
  have hread := readUnsigned?_pointed h
  cases whole with
  | nil => exact readDouble?_signed_of_head (Or.inr rfl) hread minus
  | cons c rest => exact readDouble?_signed_of_head (Or.inl (h.2 c (by simp))) hread minus

/-- The double nearest to a number no larger than an integer can be is that of the number. -/
theorem nearestDouble_nat {n : Nat} (h : n ≠ 0) (hsmall : n ≤ 2 ^ 63) :
    nearestDouble n 0 = Float.ofNat n := by
  have hcount : Shortest.digitCount n ≤ 20 := by
    rw [Shortest.digitCount, if_neg h]
    exact (Nat.length_toDigits_le_iff (by decide) (by decide)).mpr (by omega)
  rw [nearestDouble, if_neg, if_neg]
  · rfl
  · omega
  · simp only [Bool.or_eq_true, decide_eq_true_eq]
    omega

/-- No digits stand for a NaN. -/
theorem isNaN_nearestDouble (digits : Nat) (exponent : Int) :
    (nearestDouble digits exponent).isNaN = false := by
  have hzero : (0.0 : Float).isNaN = false := by decide +kernel
  have hinfinity : (1.0 / 0.0 : Float).isNaN = false := by decide +kernel
  unfold nearestDouble
  dsimp only
  split
  · exact hzero
  split
  · exact hinfinity
  · exact Double.isNaN_ofScientific _ _ _

/-- An integer other than zero stands for the same number when it is read as a double. -/
theorem readDouble?_signed_nat {minus : Bool} {n : Nat} (h : n ≠ 0) {value : Int64}
    (hvalue : readLong? (signed minus (nat n)) = some value) :
    readDouble? (signed minus (nat n)) = some (Long.toDouble value) := by
  have hinside : value.toInt = if minus then -(n : Int) else n :=
    ofInt?_eq_some_iff.mp (readLong?_signed minus n ▸ hvalue)
  have hsmall : n ≤ 2 ^ 63 := by
    have hlow := Int64.le_toInt value
    have hhigh := Int64.toInt_lt value
    cases minus <;> simp only [Bool.false_eq_true, if_true, if_false] at hinside <;> omega
  rw [(digits_nat n).readDouble?_signed, natValue_nat, nearestDouble_nat h hsmall, Long.toDouble, hinside]
  cases minus with
  | false => rfl
  | true =>
    obtain ⟨k, rfl⟩ := Nat.exists_eq_succ_of_ne_zero h
    rfl

/-- A double is read back from its text. -/
def ReadsBack (x : Float) : Prop := readDouble? (atomDouble x) = some x

instance (x : Float) : Decidable (ReadsBack x) :=
  inferInstanceAs (Decidable (readDouble? (atomDouble x) = some x))

/-- A magnitude with a point is no integer. -/
theorem Magnitude.readLong?_eq_none {magnitude : List Char} (h : Magnitude magnitude)
    (hpoint : '.' ∈ magnitude) (minus : Bool) : readLong? (signed minus magnitude) = none := by
  have hall : magnitude.all isDigit = false := List.all_eq_false.mpr ⟨'.', hpoint, by decide⟩
  simp only [readLong?, h.splitSign_signed, hall, Bool.not_false, Bool.or_true, if_true]

/-- A word that is written for a double and read as an integer is the text of that integer, which is
the same number. -/
theorem eq_of_readLong?_atomDouble {x : Float} (h : ReadsBack x) {n : Int64}
    (hn : readLong? (atomDouble x) = some n) : int n.toInt = atomDouble x ∧ Long.toDouble n = x := by
  cases hx : Binary.ofDouble? x with
  | none =>
    have hnone : ∀ name ∈ ["inf".toList, "-inf".toList, "NaN".toList], readLong? name = none := by
      decide
    rw [hnone _ (by simpa using atomDouble_special hx)] at hn
    cases hn
  | some value =>
    obtain ⟨magnitude, hmagnitude, htext⟩ := atomDouble_finite hx
    rw [ReadsBack, htext] at h
    rw [htext] at hn ⊢
    cases hmagnitude with
    | pointed hwhole hfraction hdigits =>
      rw [(Magnitude.pointed hwhole hfraction hdigits).readLong?_eq_none (by simp)] at hn
      cases hn
    | whole hne =>
      next m =>
      rw [readDouble?_signed_nat hne hn] at h
      refine ⟨?_, Option.some.inj h⟩
      rw [ofInt?_eq_some_iff.mp (readLong?_signed _ m ▸ hn), int_eq_signed]
      congr 1
      · cases value.negative <;>
          simp only [Bool.false_eq_true, if_true, if_false, decide_eq_true_eq, decide_eq_false_iff_not]
            <;> omega
      · cases value.negative <;> simp

end Numeral

end Patchbay
