import Patchbay.Proofs.Number.Doubles

/-!
# The order of doubles

A finite double is a whole number of units, the unit being the smallest positive double. The exact value
read off the bits of a double is the one that comparisons go by: doubles are in the order of their units,
and the infinities are beyond all of them.

A comparison looks at the exponents first and at the mantissas only if these are equal. That is the order
of the values because mantissas are as long as they can be, except at the smallest exponent.
-/

namespace Patchbay

open Float.Model (UnpackedFloat Format)
open Float.Model.UnpackedFloat (Sign unpackExponent unpackMantissa unpackSign)

namespace Binary

/-- How many units make one. -/
def unit : Nat := 2 ^ (1074 : Nat)

/-- There are units in one. -/
theorem unit_pos : 0 < unit := by
  unfold unit
  positivity

/-- How many units make the magnitude. -/
def size (value : Binary) : Nat := value.mantissa * 2 ^ (value.exponent + 1074).toNat

/-- How many units make the value. -/
def units (value : Binary) : Int := if value.negative then -(value.size : Int) else value.size

/-- The value is written as the bits of a double give it. -/
structure Canonical (value : Binary) : Prop where
  fits : value.mantissa < 2 ^ 53
  least : -1074 ≤ value.exponent
  normal : 2 ^ 52 ≤ value.mantissa ∨ value.exponent = -1074

/-- A value above zero is so many units above zero. -/
theorem units_pos {value : Binary} (hsign : value.negative = false) (hpos : 0 < value.mantissa) :
    0 < value.units := by
  have hsize : 0 < value.size := Nat.mul_pos hpos (Nat.two_pow_pos _)
  rw [units, hsign]
  exact Int.natCast_pos.mpr hsize

/-- A value below zero is so many units below zero. -/
theorem units_neg {value : Binary} (hsign : value.negative = true) (hpos : 0 < value.mantissa) :
    value.units < 0 := by
  have hsize : 0 < value.size := Nat.mul_pos hpos (Nat.two_pow_pos _)
  rw [units, hsign, if_pos rfl]
  omega

/-- Both zeros are no units. -/
theorem units_zero (negative : Bool) : (⟨negative, 0, -1074⟩ : Binary).units = 0 := by
  cases negative <;> simp only [units, size, Nat.zero_mul] <;> rfl

variable {a b : Binary}

/-- The greater exponent has the greater magnitude. -/
theorem Canonical.size_lt_of_exponent (ha : a.Canonical) (hb : b.Canonical)
    (h : a.exponent < b.exponent) : a.size < b.size := by
  have hleast := ha.least
  have hnormal : 2 ^ 52 ≤ b.mantissa := hb.normal.resolve_right fun hlowest => by omega
  obtain ⟨gap, hgap⟩ : ∃ gap, (b.exponent + 1074).toNat = (a.exponent + 1074).toNat + 1 + gap :=
    ⟨(b.exponent - a.exponent - 1).toNat, by omega⟩
  unfold size
  rw [hgap, Nat.pow_add, Nat.pow_succ]
  calc a.mantissa * 2 ^ (a.exponent + 1074).toNat
      < 2 ^ 53 * 2 ^ (a.exponent + 1074).toNat :=
        Nat.mul_lt_mul_of_pos_right ha.fits (Nat.two_pow_pos _)
    _ = 2 ^ 52 * (2 ^ (a.exponent + 1074).toNat * 2 * 1) := by ring
    _ ≤ b.mantissa * (2 ^ (a.exponent + 1074).toNat * 2 * 2 ^ gap) :=
        Nat.mul_le_mul hnormal (Nat.mul_le_mul_left _ (Nat.two_pow_pos gap))

/-- Exponents and then mantissas are in the order of the magnitudes. -/
theorem Canonical.compare_eq (ha : a.Canonical) (hb : b.Canonical) :
    (compare a.exponent b.exponent).then (compare a.mantissa b.mantissa) =
      compare a.size b.size := by
  rcases Int.lt_trichotomy a.exponent b.exponent with h | h | h
  · rw [compare_lt_iff_lt.mpr h, compare_lt_iff_lt.mpr (ha.size_lt_of_exponent hb h)]
    rfl
  · have hsize : compare a.size b.size = compare a.mantissa b.mantissa := by
      have hpos := Nat.two_pow_pos (b.exponent + 1074).toNat
      simp only [size, h]
      rcases Nat.lt_trichotomy a.mantissa b.mantissa with hless | hsame | hmore
      · rw [compare_lt_iff_lt.mpr hless,
          compare_lt_iff_lt.mpr (Nat.mul_lt_mul_of_pos_right hless hpos)]
      · rw [hsame, compare_eq_iff_eq.mpr rfl, compare_eq_iff_eq.mpr rfl]
      · rw [compare_gt_iff_gt.mpr hmore,
          compare_gt_iff_gt.mpr (Nat.mul_lt_mul_of_pos_right hmore hpos)]
    rw [compare_eq_iff_eq.mpr h, hsize]
    rfl
  · rw [compare_gt_iff_gt.mpr h, compare_gt_iff_gt.mpr (hb.size_lt_of_exponent ha h)]
    rfl

/-- Magnitudes compare like natural numbers. -/
theorem compare_natCast (m n : Nat) : compare (m : Int) n = compare m n := by
  rcases Nat.lt_trichotomy m n with h | rfl | h
  · rw [compare_lt_iff_lt.mpr h, compare_lt_iff_lt.mpr (Int.ofNat_lt.mpr h)]
  · rw [compare_eq_iff_eq.mpr rfl, compare_eq_iff_eq.mpr rfl]
  · rw [compare_gt_iff_gt.mpr h, compare_gt_iff_gt.mpr (Int.ofNat_lt.mpr h)]

/-- Below zero they compare the other way around. -/
theorem compare_neg_natCast (m n : Nat) :
    compare (-(m : Int)) (-(n : Int)) = (compare m n).swap := by
  rcases Nat.lt_trichotomy m n with h | rfl | h
  · rw [compare_lt_iff_lt.mpr h, compare_gt_iff_gt.mpr (by omega)]
    rfl
  · rw [compare_eq_iff_eq.mpr rfl, compare_eq_iff_eq.mpr rfl]
    rfl
  · rw [compare_gt_iff_gt.mpr h, compare_lt_iff_lt.mpr (by omega)]
    rfl

end Binary

namespace Double

/-! ### The bits of a double -/

/-- The fraction of a double. -/
theorem toNat_unpackMantissa (bits : BitVec 64) :
    (@unpackMantissa Format.binary64 bits).toNat = bits.toNat % 2 ^ 52 := by
  simp [unpackMantissa]

/-- The power of a double. -/
theorem toNat_unpackExponent (bits : BitVec 64) :
    (@unpackExponent Format.binary64 bits).toNat = bits.toNat >>> 52 % 2048 := by
  simp [unpackExponent]

/-- The leading bit of a double and its fraction. -/
theorem toNat_one_append_unpackMantissa (bits : BitVec 64) :
    (1#1 ++ @unpackMantissa Format.binary64 bits).toNat = 2 ^ 52 + bits.toNat % 2 ^ 52 := by
  rw [BitVec.toNat_append, ← Nat.shiftLeft_add_eq_or_of_lt (BitVec.isLt _), toNat_unpackMantissa]
  rfl

/-- A double without a fraction. -/
theorem unpackMantissa_eq_zero (bits : BitVec 64) :
    @unpackMantissa Format.binary64 bits = 0#52 ↔ bits.toNat % 2 ^ 52 = 0 := by
  rw [← BitVec.toNat_inj, toNat_unpackMantissa]
  rfl

/-- The lowest power and the highest one tell the kinds of doubles apart. -/
theorem unpackExponent_eq (bits : BitVec 64) :
    (@unpackExponent Format.binary64 bits = 0#11 ↔ bits.toNat >>> 52 % 2048 = 0) ∧
      (@unpackExponent Format.binary64 bits = -1#11 ↔ bits.toNat >>> 52 % 2048 = 2047) := by
  rw [← BitVec.toNat_inj, ← BitVec.toNat_inj, toNat_unpackExponent]
  exact ⟨Iff.rfl, Iff.rfl⟩

/-- The sign of a double. -/
theorem ofBitVec_unpackSign (bits : BitVec 64) :
    Sign.ofBitVec (@unpackSign Format.binary64 bits) =
      if bits.toNat >>> 63 % 2 == 1 then .negative else .positive := by
  have hsign : (@unpackSign Format.binary64 bits).toNat = bits.toNat >>> 63 % 2 := by
    simp [unpackSign]
  generalize @unpackSign Format.binary64 bits = sign at hsign
  unfold Sign.ofBitVec
  by_cases hset : bits.toNat >>> 63 % 2 = 1
  · rw [if_neg, if_pos (beq_iff_eq.mpr hset)]
    rintro rfl
    simp [hset] at hsign
  · rw [if_pos, if_neg (by simpa using hset)]
    exact BitVec.eq_of_toNat_eq (by simp; omega)

/-- An exact value stands for what the bits of a double unpack to; there is none for infinities and
NaN. -/
inductive Stands : UnpackedFloat → Option Binary → Prop
  | infinity (sign : Sign) : Stands (.infinity sign) none
  | notANumber : Stands .notANumber none
  | zero (negative : Bool) :
    Stands (.zero (if negative then .negative else .positive)) (some ⟨negative, 0, -1074⟩)
  | finite (negative : Bool) (mantissa : Nat) (exponent : Int) (hpos : 0 < mantissa)
    (hcanonical : (⟨negative, mantissa, exponent⟩ : Binary).Canonical) :
    Stands (.finite (if negative then .negative else .positive) mantissa exponent hpos)
      (some ⟨negative, mantissa, exponent⟩)

/-- A number other than zero, from its parts. -/
theorem Stands.of_parts {sign : Sign} {mantissa : Nat} {exponent : Int} {hpos : 0 < mantissa}
    {value : Binary} (hsign : sign = if value.negative then .negative else .positive)
    (hmantissa : mantissa = value.mantissa) (hexponent : exponent = value.exponent)
    (hcanonical : value.Canonical) : Stands (.finite sign mantissa exponent hpos) (some value) := by
  subst hsign hmantissa hexponent
  exact .finite _ _ _ hpos hcanonical

/-- The exact value of a double stands for it. -/
theorem stands (x : Float) : Stands x.toModel.unpack (Binary.ofDouble? x) := by
  have hmantissa := toNat_unpackMantissa x.toBits.toBitVec
  have hleading := toNat_one_append_unpackMantissa x.toBits.toBitVec
  have hnone := unpackMantissa_eq_zero x.toBits.toBitVec
  have hexponent := toNat_unpackExponent x.toBits.toBitVec
  obtain ⟨hbottom, htop⟩ := unpackExponent_eq x.toBits.toBitVec
  have hsign := ofBitVec_unpackSign x.toBits.toBitVec
  change Stands (UnpackedFloat.unpack .binary64 x.toBits.toBitVec) _
  have hbits : x.toBits.toBitVec.toNat = x.toBits.toNat := rfl
  rw [hbits] at hmantissa hleading hnone hexponent hbottom htop hsign
  have hfraction : x.toBits.toNat % 2 ^ 52 < 2 ^ 52 := Nat.mod_lt _ (by decide)
  have hbias : (Format.binary64.exponentBias : Int) = 1023 := rfl
  unfold Binary.ofDouble? Binary.ofBits?
  simp only [show BinaryFormat.double.topPower = 2047 from rfl,
    show BinaryFormat.double.fractionBits = 52 from rfl,
    show BinaryFormat.double.exponentBits = 11 from rfl,
    show BinaryFormat.double.leadingBit = 2 ^ 52 from rfl,
    show BinaryFormat.double.lowest = -1074 from rfl]
  simp only [UnpackedFloat.unpack, htop, hbottom, hsign, hexponent, hbias]
  split
  · split
    · exact .infinity _
    · exact .notANumber
  split
  · split
    · next hzero =>
      rw [hnone.mp hzero]
      exact .zero _
    · next hzero hsub =>
      refine .of_parts rfl hmantissa (by dsimp only; omega) ⟨?_, Int.le_refl _, Or.inr rfl⟩
      dsimp only
      omega
  · refine .of_parts rfl hleading (by dsimp only; omega) ⟨?_, ?_, Or.inl ?_⟩
    all_goals
      dsimp only
      omega

/-- The exact value of a double is written as its bits give it. -/
theorem canonical {x : Float} {value : Binary} (h : Binary.ofDouble? x = some value) :
    value.Canonical := by
  have hstands := stands x
  rw [h] at hstands
  generalize x.toModel.unpack = unpacked at hstands
  cases hstands with
  | zero negative => exact ⟨Nat.two_pow_pos 53, Int.le_refl _, Or.inr rfl⟩
  | finite negative mantissa exponent hpos hcanonical => exact hcanonical

/-- What a double unpacks to tells its units. -/
theorem exists_of_unpack {x : Float} {sign : Sign} {mantissa : Nat} {exponent : Int}
    {hpos : 0 < mantissa} (h : x.toModel.unpack = .finite sign mantissa exponent hpos) :
    ∃ value, Binary.ofDouble? x = some value ∧
      value.units = sign.apply ((mantissa * 2 ^ (exponent + 1074).toNat : Nat) : Int) := by
  have hstands := stands x
  rw [h] at hstands
  generalize Binary.ofDouble? x = value? at hstands
  cases hstands with
  | finite negative =>
    refine ⟨_, rfl, ?_⟩
    cases negative <;> rfl

/-! ### Comparing -/

/-- One double is below another if their unpacked values compare so. -/
theorem lt_iff {x y : Float} :
    x < y ↔ x.toModel.unpack.compare y.toModel.unpack = some .lt := by
  have hlt : x < y ↔ (x.toModel.unpack.compare y.toModel.unpack == some .lt) = true :=
    decide_eq_true_iff
  rw [hlt, beq_iff_eq]

/-- One double is not above another if their unpacked values compare so. -/
theorem le_iff {x y : Float} :
    x ≤ y ↔ (x.toModel.unpack.compare y.toModel.unpack).any Ordering.isLE = true := by
  have hle : x ≤ y ↔ (x.toModel.unpack.compare y.toModel.unpack).any (·.isLE) = true :=
    decide_eq_true_iff
  exact hle

/-- What is below a double is not above it. -/
theorem le_of_lt {x y : Float} (h : x < y) : x ≤ y := by
  rw [le_iff, lt_iff.mp h]
  rfl

/-- A number is not above itself. -/
theorem le_self {x : Float} (h : x.isNaN = false) : x ≤ x := by
  have hself : (x.toModel.unpack.compare x.toModel.unpack == some .eq) = true := beq_self h
  rw [le_iff, beq_iff_eq.mp hself]
  rfl

/-- What is above something or below something is a number. -/
theorem isNaN_of_le {x y : Float} (h : x ≤ y) : x.isNaN = false ∧ y.isNaN = false := by
  rw [le_iff] at h
  change x.toModel.unpack.isNaN = false ∧ y.toModel.unpack.isNaN = false
  cases hx : x.toModel.unpack with
  | notANumber =>
    rw [hx] at h
    cases h
  | infinity sign | zero sign | finite sign =>
    cases hy : y.toModel.unpack with
    | notANumber =>
      rw [hx, hy] at h
      cases sign <;> cases h
    | infinity | zero | finite => exact ⟨rfl, rfl⟩

/-- The other way around two unpacked values compare the other way around. -/
theorem compare_swap (p q : UnpackedFloat) : (p.compare q).map Ordering.swap = q.compare p := by
  have hfinite : ∀ (e e' : Int) (m m' : Nat), ((compare e e').then (compare m m')).swap =
      (compare e' e).then (compare m' m) := by
    intro e e' m m'
    rw [Ordering.swap_then, Int.compare_swap, Nat.compare_swap]
  cases p with
  | notANumber => cases q <;> rfl
  | infinity s =>
    cases q with
    | infinity s' => cases s <;> cases s' <;> rfl
    | _ => cases s <;> rfl
  | zero s =>
    cases q with
    | notANumber | zero => rfl
    | infinity s' | finite s' => cases s' <;> rfl
  | finite s =>
    cases q with
    | notANumber => cases s <;> rfl
    | zero => cases s <;> rfl
    | infinity s' => cases s' <;> cases s <;> rfl
    | finite s' =>
      cases s <;> cases s' <;> simp [UnpackedFloat.compare, hfinite]

/-- Only a NaN cannot be compared. -/
theorem isSome_compare {p q : UnpackedFloat} (hp : p.isNaN = false) (hq : q.isNaN = false) :
    (p.compare q).isSome = true := by
  cases p with
  | notANumber => cases hp
  | infinity s | zero s | finite s =>
    cases q with
    | notANumber => cases hq
    | infinity s' | zero s' | finite s' => cases s <;> cases s' <;> rfl

/-- Of two numbers one is not above the other. -/
theorem le_of_not_lt {x y : Float} (hx : x.isNaN = false) (hy : y.isNaN = false) (h : ¬ x < y) :
    y ≤ x := by
  rw [lt_iff] at h
  rw [le_iff, ← compare_swap]
  obtain ⟨order, horder⟩ := Option.isSome_iff_exists.mp (isSome_compare hx hy)
  rw [horder] at h ⊢
  cases order with
  | lt => exact absurd rfl h
  | eq | gt => rfl

/-- Finite doubles compare like their units. -/
theorem compare_units {x y : Float} {a b : Binary} (ha : Binary.ofDouble? x = some a)
    (hb : Binary.ofDouble? y = some b) :
    x.toModel.unpack.compare y.toModel.unpack = some (compare a.units b.units) := by
  have hcompare := (canonical ha).compare_eq (canonical hb)
  have hx := stands x
  have hy := stands y
  rw [ha] at hx
  rw [hb] at hy
  generalize x.toModel.unpack = p at hx ⊢
  generalize y.toModel.unpack = q at hy ⊢
  have hzero := Binary.units_zero
  have hlt : ∀ {m n : Int}, m < n → some .lt = some (compare m n) := fun h =>
    congrArg some (compare_lt_iff_lt.mpr h).symm
  have hgt : ∀ {m n : Int}, m > n → some .gt = some (compare m n) := fun h =>
    congrArg some (compare_gt_iff_gt.mpr h).symm
  cases hx with
  | zero negative =>
    cases hy with
    | zero other =>
      rw [hzero, hzero]
      rfl
    | finite other mantissa exponent hpos =>
      rw [hzero]
      cases other with
      | false => exact hlt (Binary.units_pos rfl hpos)
      | true => exact hgt (Binary.units_neg rfl hpos)
  | finite negative mantissa exponent hpos =>
    cases hy with
    | zero other =>
      rw [hzero]
      cases negative with
      | false => exact hgt (Binary.units_pos rfl hpos)
      | true => exact hlt (Binary.units_neg rfl hpos)
    | finite other mantissa' exponent' hpos' =>
      cases negative with
      | false =>
        cases other with
        | false => exact congrArg some (hcompare.trans (Binary.compare_natCast _ _).symm)
        | true => exact hgt ((Binary.units_neg rfl hpos').trans (Binary.units_pos rfl hpos))
      | true =>
        cases other with
        | false => exact hlt ((Binary.units_neg rfl hpos).trans (Binary.units_pos rfl hpos'))
        | true =>
          exact congrArg some
            ((congrArg Ordering.swap hcompare).trans (Binary.compare_neg_natCast _ _).symm)

/-- Finite doubles are in the order of their units. -/
theorem lt_iff_units {x y : Float} {a b : Binary} (ha : Binary.ofDouble? x = some a)
    (hb : Binary.ofDouble? y = some b) : x < y ↔ a.units < b.units := by
  rw [lt_iff, compare_units ha hb, Option.some.injEq, compare_lt_iff_lt]

/-- What has no exact value and is no NaN is above all finite doubles, or below all of them. -/
theorem infinite_cases {x : Float} (h : Binary.ofDouble? x = none) (hnan : x.isNaN = false) :
    (∀ y value, Binary.ofDouble? y = some value → y < x ∧ ¬ x < y) ∨
      ∀ y value, Binary.ofDouble? y = some value → x < y ∧ ¬ y < x := by
  have hx := stands x
  rw [h] at hx
  change x.toModel.unpack.isNaN = false at hnan
  cases hu : x.toModel.unpack with
  | notANumber =>
    rw [hu] at hnan
    cases hnan
  | zero | finite =>
    rw [hu] at hx
    cases hx
  | infinity sign =>
    have hfinite : ∀ y value, Binary.ofDouble? y = some value →
        (y < x ↔ sign = .positive) ∧ (x < y ↔ sign = .negative) := by
      intro y value hvalue
      have hy := stands y
      rw [hvalue] at hy
      rw [lt_iff, lt_iff, hu]
      generalize y.toModel.unpack = q at hy
      cases hy with
      | zero | finite => cases sign <;> simp [UnpackedFloat.compare]
    cases sign with
    | positive => exact Or.inl fun y value hvalue => by simp [hfinite y value hvalue]
    | negative => exact Or.inr fun y value hvalue => by simp [hfinite y value hvalue]

/-- What is below something is no NaN. -/
theorem isNaN_of_lt {x limit : Float} (h : x < limit) : x.isNaN = false := by
  rw [lt_iff] at h
  change x.toModel.unpack.isNaN = false
  cases hx : x.toModel.unpack with
  | notANumber =>
    rw [hx] at h
    cases h
  | infinity | zero | finite => rfl

end Double

end Patchbay
