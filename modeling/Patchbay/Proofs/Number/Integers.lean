import Patchbay.Proofs.Number.Whole

/-!
# Integers as doubles

An integer below 2^53 has a double of just its value. A larger one is rounded, and may share its double
with other large integers. But rounding does not pass by any double: no integer that has a double of just
its value lies between an integer and what it is rounded to. So a small integer shares its double with no
other one.
-/

namespace Patchbay

open Float.Model (UnpackedFloat)
open Float.Model.UnpackedFloat (Sign)

namespace Binary.Short

variable {k n shift : Nat}

/-- A number below 2^53 is short. -/
theorem of_lt (h : n < 2 ^ 53) : Short n := ⟨n, 0, h, (Nat.mul_one n).symm⟩

/-- A short number of more digits than a mantissa has ends with zeros. -/
theorem dvd (hk : Short k) (h : 2 ^ (52 + shift) ≤ k) : 2 ^ shift ∣ k := by
  obtain ⟨mantissa, zeros, hfits, rfl⟩ := hk
  have henough : shift ≤ zeros := by
    by_contra hfew
    have hless : mantissa * 2 ^ zeros < 2 ^ (52 + shift) := by
      calc mantissa * 2 ^ zeros < 2 ^ 53 * 2 ^ zeros :=
            Nat.mul_lt_mul_of_pos_right hfits (Nat.two_pow_pos zeros)
        _ = 2 ^ (53 + zeros) := (Nat.pow_add 2 53 zeros).symm
        _ ≤ 2 ^ (52 + shift) := Nat.pow_le_pow_right (by decide) (by omega)
    omega
  exact (Nat.pow_dvd_pow 2 henough).mul_left mantissa

/-- A short number that is not above another one is not above it either when the digits that a mantissa
has no room for are cut off. -/
theorem le_cut (hk : Short k) (hn : 2 ^ (52 + shift) ≤ n) (hle : k ≤ n) :
    k ≤ n / 2 ^ shift * 2 ^ shift := by
  rcases Nat.lt_or_ge k (2 ^ (52 + shift)) with hless | hlarge
  · have hcut : 2 ^ 52 ≤ n / 2 ^ shift := by
      rwa [Nat.le_div_iff_mul_le (Nat.two_pow_pos shift), ← Nat.pow_add]
    calc k ≤ 2 ^ (52 + shift) := hless.le
      _ = 2 ^ 52 * 2 ^ shift := Nat.pow_add 2 52 shift
      _ ≤ n / 2 ^ shift * 2 ^ shift := Nat.mul_le_mul_right _ hcut
  · obtain ⟨digits, rfl⟩ := hk.dvd hlarge
    rw [Nat.mul_comm] at hle ⊢
    exact Nat.mul_le_mul_right _ ((Nat.le_div_iff_mul_le (Nat.two_pow_pos shift)).mpr hle)

/-- A short number above another one is not below what follows when these digits are cut off. -/
theorem cut_lt (hk : Short k) (hn : 2 ^ (52 + shift) ≤ n) (hlt : n < k) :
    (n / 2 ^ shift + 1) * 2 ^ shift ≤ k := by
  obtain ⟨digits, rfl⟩ := hk.dvd (hn.trans hlt.le)
  rw [Nat.mul_comm] at hlt
  rw [Nat.mul_comm (2 ^ shift)]
  exact Nat.mul_le_mul_right _ ((Nat.div_lt_iff_lt_mul (Nat.two_pow_pos shift)).mpr hlt)

end Binary.Short

namespace Double

/-- Finite doubles are equal just if they are as many units. -/
theorem beq_iff_units {x y : Float} {a b : Binary} (ha : Binary.ofDouble? x = some a)
    (hb : Binary.ofDouble? y = some b) : (x == y) = true ↔ a.units = b.units := by
  change (x.toModel.unpack.compare y.toModel.unpack == some .eq) = true ↔ _
  rw [beq_iff_eq, compare_units ha hb, Option.some.injEq, compare_eq_iff_eq]

/-- A number of more digits than a mantissa has is rounded to what is left when the further ones are cut
off, or to what follows. -/
theorem exists_unpack_ofNat {n : Nat} (hlarge : 2 ^ 53 ≤ n) (hmost : n ≤ 2 ^ 63) :
    ∃ (shift mantissa : Nat) (exponent : Int) (h : Packable .binary64 mantissa exponent),
      2 ^ (52 + shift) ≤ n ∧ 0 ≤ exponent ∧
      (Float.ofNat n).toModel.unpack = .finite .positive mantissa exponent h.pos ∧
      (mantissa * 2 ^ exponent.toNat = n / 2 ^ shift * 2 ^ shift ∨
        mantissa * 2 ^ exponent.toNat = (n / 2 ^ shift + 1) * 2 ^ shift) := by
  have hpos : 0 < n := by omega
  have hlog : n.log2 < 64 := (Nat.log2_lt hpos.ne').mpr (by omega)
  have hlogLarge : 53 ≤ n.log2 := (Nat.le_log2 hpos.ne').mpr hlarge
  obtain ⟨shift, hshift⟩ : ∃ shift, n.log2 = 52 + shift := ⟨n.log2 - 52, by omega⟩
  have hfill : (n * 2 ^ 53).log2 = 52 + (53 + shift) := by
    rw [log2_mul_two_pow hpos]
    omega
  have hleast : 0 < -53 + ((53 + shift : Nat) : Int) + (1023 : Nat) + (52 : Nat) := by omega
  have hless : -53 + ((53 + shift : Nat) : Int) + (1023 : Nat) + (52 : Nat) + 2 < (2 : Int) ^ 11 := by omega
  obtain ⟨mantissa, carry, hpack, hround, hvalue⟩ := exists_roundWithAccuracy .binary64
    .positive (Nat.mul_pos hpos (Nat.two_pow_pos _)) hfill hleast hless
  have hcut : n * 2 ^ 53 / 2 ^ (53 + shift) = n / 2 ^ shift := by
    rw [Nat.pow_add, ← Nat.div_div_eq_div_mul, Nat.mul_div_cancel n (Nat.two_pow_pos 53)]
  have hexponent : (-53 + ((53 + shift : Nat) : Int) + carry).toNat = carry + shift := by omega
  have hscientific : UnpackedFloat.ofScientific .binary64 n (0 : Nat) =
      .finite .positive mantissa (-53 + ((53 + shift : Nat) : Int) + carry) hpack.pos :=
    (ofScientific_nat .binary64 hpos).trans hround
  refine ⟨shift, mantissa, _, hpack, ?_, by omega, ?_, ?_⟩
  · exact hshift ▸ Nat.log2_self_le hpos.ne'
  · change (Float.ofScientific n false 0).toModel.unpack = _
    rw [Float.ofScientific, dif_neg (by omega)]
    change (Float.Model.pack (UnpackedFloat.ofScientific .binary64 n (0 : Nat))).unpack = _
    rw [hscientific, unpack_pack hpack]
  · rw [hexponent, Nat.pow_add, ← Nat.mul_assoc, ← hcut]
    exact hvalue.imp (congrArg (· * 2 ^ shift)) (congrArg (· * 2 ^ shift))

/-- The double of a large integer holds an integer on the same side of zero. It is next to the other one
as far as the digits go that a mantissa has room for. -/
theorem exists_holds_of_large {n : Int} (hlarge : 2 ^ 53 ≤ n.natAbs) (hmost : n.natAbs ≤ 2 ^ 63) :
    ∃ (shift magnitude : Nat), 2 ^ (52 + shift) ≤ n.natAbs ∧
      Holds (Float.ofInt n) (if n < 0 then -(magnitude : Int) else magnitude) ∧
      (magnitude = n.natAbs / 2 ^ shift * 2 ^ shift ∨
        magnitude = (n.natAbs / 2 ^ shift + 1) * 2 ^ shift) := by
  obtain ⟨shift, mantissa, exponent, hpack, hshift, hexponent, hunpack, hvalue⟩ :=
    exists_unpack_ofNat hlarge hmost
  have hsize : mantissa * 2 ^ (exponent + 1074).toNat =
      mantissa * 2 ^ exponent.toNat * Binary.unit := by
    obtain ⟨-, hpart, hsize⟩ := @Binary.wholePart_of_nonneg ⟨false, mantissa, exponent⟩ hexponent
    rwa [hpart] at hsize
  refine ⟨shift, mantissa * 2 ^ exponent.toNat, hshift, ?_, hvalue⟩
  cases n with
  | ofNat n =>
    obtain ⟨value, hfound, hunits⟩ := exists_of_unpack (x := Float.ofInt (.ofNat n)) hunpack
    refine ⟨value, hfound, ?_⟩
    rw [hunits, Sign.apply, hsize, if_neg (by simp), Nat.cast_mul]
  | negSucc n =>
    have hneg : (Float.ofInt (.negSucc n)).toModel.unpack =
        .finite .negative mantissa exponent hpack.pos := by
      change (Float.Model.pack (Float.ofNat (n + 1)).toModel.unpack.neg).unpack = _
      rw [show (Float.ofNat (n + 1)).toModel.unpack = _ from hunpack]
      exact unpack_pack hpack .negative
    obtain ⟨value, hfound, hunits⟩ := exists_of_unpack hneg
    refine ⟨value, hfound, ?_⟩
    rw [hunits, Sign.apply, hsize, if_pos (Int.negSucc_lt_zero n), Nat.cast_mul, Int.neg_mul]

end Double

namespace Long

/-- An integer has a magnitude of 64 bits. -/
theorem natAbs_toInt_le (n : Int64) : n.toInt.natAbs ≤ 2 ^ 63 := by
  have hlow := Int64.le_toInt n
  have hhigh := Int64.toInt_lt n
  omega

/-- The double of an integer holds an integer, and no short integer lies between the two. -/
theorem exists_holds_toDouble (n : Int64) : ∃ rounded : Int, Double.Holds (toDouble n) rounded ∧
    ∀ k : Int, Binary.Short k.natAbs →
      (k ≤ n.toInt → k ≤ rounded) ∧ (n.toInt ≤ k → rounded ≤ k) := by
  by_cases hshort : Binary.Short n.toInt.natAbs
  · exact ⟨n.toInt, Double.holds_ofInt hshort (natAbs_toInt_le n), fun k _ => ⟨id, id⟩⟩
  have hlarge : 2 ^ 53 ≤ n.toInt.natAbs := Nat.le_of_not_lt fun hsmall => hshort (.of_lt hsmall)
  obtain ⟨shift, magnitude, hshift, hholds, hvalue⟩ :=
    Double.exists_holds_of_large hlarge (natAbs_toInt_le n)
  refine ⟨_, hholds, fun k hk => ?_⟩
  -- The magnitudes are compared, and they differ, since one of them is short and the other one is not.
  have hne : k.natAbs ≠ n.toInt.natAbs := fun heq => hshort (heq ▸ hk)
  have hbelow : k.natAbs ≤ n.toInt.natAbs → k.natAbs ≤ magnitude := by
    intro hle
    have hcut := hk.le_cut hshift hle
    rcases hvalue with rfl | rfl
    · exact hcut
    · exact hcut.trans (Nat.mul_le_mul_right _ (Nat.le_succ _))
  have habove : n.toInt.natAbs ≤ k.natAbs → magnitude ≤ k.natAbs := by
    intro hle
    have hcut := hk.cut_lt hshift (lt_of_le_of_ne hle hne.symm)
    rcases hvalue with rfl | rfl
    · exact (Nat.mul_le_mul_right _ (Nat.le_succ _)).trans hcut
    · exact hcut
  split <;> constructor <;> omega

/-- An integer that shares its double with another one is not below 2^53. -/
theorem two_pow_le_of_beq {m n : Int64} (hne : m ≠ n) (h : (toDouble m == toDouble n) = true) :
    2 ^ 53 ≤ m.toInt.natAbs := by
  by_contra hless
  have hsmall : Binary.Short m.toInt.natAbs := .of_lt (Nat.lt_of_not_le hless)
  obtain ⟨a, ha, haunits⟩ := Double.holds_ofInt hsmall (natAbs_toInt_le m)
  obtain ⟨rounded, ⟨b, hb, hbunits⟩, hbetween⟩ := exists_holds_toDouble n
  have hunit : (Binary.unit : Int) ≠ 0 := Int.natCast_ne_zero.mpr Binary.unit_pos.ne'
  have hunits := (Double.beq_iff_units ha hb).mp h
  rw [haunits, hbunits] at hunits
  have hequal : m.toInt = rounded := Int.eq_of_mul_eq_mul_right hunit hunits
  have hdiffer : m.toInt ≠ n.toInt := fun heq => hne (Int64.toInt_inj.mp heq)
  -- The other integer is small, too, since 2^53 and its opposite are short; so it has its own value.
  have htop := hbetween (2 ^ 53) (Binary.short_of_two_pow 53 rfl)
  have hbottom := hbetween (-2 ^ 53) (Binary.short_of_two_pow 53 rfl)
  have hown := hbetween n.toInt (.of_lt (by omega))
  omega

end Long

end Patchbay
