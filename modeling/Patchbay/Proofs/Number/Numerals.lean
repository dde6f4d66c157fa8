import Mathlib.Data.List.Basic
import Mathlib.Tactic.IntervalCases
import Patchbay.Number.Notation

/-!
# Numerals read back

An integer is written with the digits of its magnitude, and these give the magnitude again. A finite
double is written as a magnitude behind an optional minus sign. The magnitude is either the digits of
a whole number other than zero, or it has a point with digits on both sides. So a word that stands for
a double and is read as an integer stands for the same number, and never for a zero that would lose its
sign.
-/

namespace Patchbay

namespace Numeral

/-- The digits of a number are digits. -/
theorem isDigit_of_mem_nat {n : Nat} {c : Char} (h : c ∈ nat n) : isDigit c = true := by
  have hdigit := Nat.isDigit_of_mem_toDigits (by decide) (by decide) h
  simp only [Char.isDigit, Bool.and_eq_true, decide_eq_true_eq] at hdigit
  simp only [isDigit, Bool.and_eq_true, decide_eq_true_eq]
  exact hdigit

/-- Every number has a digit. -/
theorem nat_ne_nil (n : Nat) : nat n ≠ [] := Nat.toDigits_ne_nil

/-- The digits of a number have its value. -/
@[simp]
theorem natValue_nat (n : Nat) : natValue (nat n) = n := Nat.ofDigitChars_ten_toDigits

/-- Zeros behind the digits of a number are the digits of a multiple of it. -/
theorem nat_append_zeros {n : Nat} (h : n ≠ 0) (count : Nat) :
    nat n ++ List.replicate count '0' = nat (n * 10 ^ count) := by
  induction count with
  | zero => simp
  | succ count ih =>
    have hpos : 0 < n * 10 ^ count := Nat.mul_pos (Nat.pos_of_ne_zero h) (Nat.pow_pos (by decide))
    have hdigits := Nat.toDigits_append_toDigits (b := 10) (d := 0) (by decide) hpos (by decide)
    rw [List.replicate_succ', ← List.append_assoc, ih, Nat.pow_succ, ← Nat.mul_assoc,
      Nat.mul_comm _ 10]
    simpa [nat] using hdigits

/-- A text of digits, of which there are some. -/
def Digits (text : List Char) : Prop := text ≠ [] ∧ ∀ c ∈ text, isDigit c = true

/-- The digits of a number are such a text. -/
theorem digits_nat (n : Nat) : Digits (nat n) := ⟨nat_ne_nil n, fun _ hc => isDigit_of_mem_nat hc⟩

/-- No sign is a digit. -/
theorem ne_sign_of_isDigit {c : Char} (h : isDigit c = true) : c ≠ '-' ∧ c ≠ '+' := by
  constructor <;>
    · rintro rfl
      exact absurd h (by decide)

/-- A magnitude behind an optional minus sign. -/
def signed (minus : Bool) (magnitude : List Char) : List Char :=
  if minus then '-' :: magnitude else magnitude

/-- The sign splits off again what does not start with a sign. -/
theorem splitSign_signed_of_ne {c : Char} (h : c ≠ '-' ∧ c ≠ '+') (rest : List Char) (minus : Bool) :
    splitSign (signed minus (c :: rest)) = (minus, c :: rest) := by
  cases minus with
  | true => rfl
  | false =>
    rw [signed, if_neg Bool.false_ne_true, splitSign]
    · exact fun _ heq => h.1 (List.cons.inj heq).1
    · exact fun _ heq => h.2 (List.cons.inj heq).1

/-- The sign splits off a magnitude again. -/
theorem splitSign_signed {c : Char} (h : isDigit c = true) (rest : List Char) (minus : Bool) :
    splitSign (signed minus (c :: rest)) = (minus, c :: rest) :=
  splitSign_signed_of_ne (ne_sign_of_isDigit h) rest minus

/-- The sign splits off digits again. -/
theorem Digits.splitSign_signed {digits : List Char} (h : Digits digits) (minus : Bool) :
    splitSign (signed minus digits) = (minus, digits) := by
  obtain ⟨c, rest, rfl⟩ := List.exists_cons_of_ne_nil h.1
  exact Numeral.splitSign_signed (h.2 c List.mem_cons_self) rest minus

/-- Digits behind a sign are an integer, if that is in range. -/
theorem Digits.readLong?_signed {digits : List Char} (h : Digits digits) (minus : Bool) :
    readLong? (signed minus digits) =
      Long.ofInt? (if minus then -(natValue digits : Int) else natValue digits) := by
  have hall : digits.all isDigit = true := List.all_eq_true.mpr h.2
  have hsome : digits.isEmpty = false := by simpa using h.1
  simp only [readLong?, h.splitSign_signed, hall, hsome]
  rfl

/-- So are the digits of a number. -/
theorem readLong?_signed (minus : Bool) (n : Nat) :
    readLong? (signed minus (nat n)) = Long.ofInt? (if minus then -(n : Int) else n) := by
  rw [(digits_nat n).readLong?_signed, natValue_nat]

/-- An integer is written as its magnitude behind its sign. -/
theorem int_eq_signed (n : Int) : int n = signed (n < 0) (nat n.natAbs) := by
  unfold int signed
  split <;> simp_all

/-- The integers that fit in 64 bits are those that are values. -/
theorem ofInt?_eq_some_iff {n : Int} {value : Int64} :
    Long.ofInt? n = some value ↔ value.toInt = n := by
  rw [Long.ofInt?]
  constructor
  · intro h
    split at h
    · next hrange =>
      rw [← Option.some.inj h, Int64.toInt_ofInt_of_le hrange.1]
      exact Int.lt_of_le_of_lt hrange.2 (by decide)
    · cases h
  · rintro rfl
    rw [if_pos ⟨Int64.minValue_le_toInt value, Int64.toInt_le value⟩, Int64.ofInt_toInt]

/-- Every integer is read back from its text. -/
theorem readLong?_int (n : Int64) : readLong? (int n.toInt) = some n := by
  rw [int_eq_signed, readLong?_signed, ofInt?_eq_some_iff]
  simp only [decide_eq_true_eq]
  split <;> omega

end Numeral

namespace Shortest

/-- No interval around a number other than zero holds zero. -/
theorem Target.ne_zero_of_admits {target : Target} (h : target.below < target.value)
    {numerator denominator : Nat} (hdenominator : 0 < denominator)
    (hadmits : target.admits numerator denominator = true) : numerator ≠ 0 := by
  rintro rfl
  have hlow : 0 < (target.value - target.below) * denominator :=
    Nat.mul_pos (by omega) hdenominator
  simp only [admits, Nat.zero_mul] at hadmits
  split at hadmits <;>
    · simp only [Bool.and_eq_true, decide_eq_true_eq] at hadmits
      omega

/-- A number other than zero keeps a digit when a zero is dropped. -/
theorem dropZero_ne_zero {x : Decimal} (h : x.digits ≠ 0) : (dropZero x).digits ≠ 0 := by
  unfold dropZero
  split
  · show x.digits / 10 ≠ 0
    omega
  · exact h

/-- A decimal found on a grid is not zero. -/
theorem Target.ne_zero_of_onGrid {target : Target} (h : target.below < target.value)
    {magnitude : Int} {count : Nat} {found : Decimal}
    (hfound : target.onGrid magnitude count = some found) : found.digits ≠ 0 := by
  have hadmits : ∀ {digits up power : Nat}, target.admits (digits * up) (10 ^ power) = true →
      digits ≠ 0 := fun hdigits => left_ne_zero_of_mul (ne_zero_of_admits h (by positivity) hdigits)
  simp only [onGrid, Nat.pow_eq] at hfound
  split at hfound
  · next hboth =>
    obtain rfl := Option.some.inj hfound
    refine dropZero_ne_zero ?_
    have hlower := hadmits (Bool.and_eq_true_iff.mp hboth).1
    show (if _ then _ else _ : Nat) ≠ 0
    split
    · exact hlower
    · exact Nat.succ_ne_zero _
  split at hfound
  · next hlower =>
    obtain rfl := Option.some.inj hfound
    exact hadmits hlower
  split at hfound
  · obtain rfl := Option.some.inj hfound
    exact dropZero_ne_zero (Nat.succ_ne_zero _)
  · cases hfound

/-- A decimal found on any grid is not zero. -/
theorem Target.ne_zero_of_search {target : Target} (h : target.below < target.value)
    {magnitude : Int} {count remaining : Nat} {found : Decimal}
    (hfound : target.search magnitude count remaining = some found) : found.digits ≠ 0 := by
  induction remaining generalizing count with
  | zero => cases hfound
  | succ remaining ih =>
    rw [search] at hfound
    cases hgrid : target.onGrid magnitude count with
    | some first =>
      rw [hgrid] at hfound
      obtain rfl := Option.some.inj hfound
      exact ne_zero_of_onGrid h hgrid
    | none =>
      rw [hgrid] at hfound
      exact ih hfound

end Shortest

/-- The shortest decimal of a number other than zero is not zero. -/
theorem Binary.shortest_ne_zero (format : BinaryFormat) {x : Binary} (h : x.mantissa ≠ 0) :
    (x.shortest format).digits ≠ 0 := by
  have hbelow : ∀ tight, (Shortest.Target.ofParts x.mantissa x.exponent tight).below <
      (Shortest.Target.ofParts x.mantissa x.exponent tight).value := by
    intro tight
    have hscale : 0 < if 0 ≤ x.exponent then 1 <<< x.exponent.toNat else 1 := by
      split
      · rw [Nat.one_shiftLeft]
        positivity
      · exact Nat.one_pos
    simp only [Shortest.Target.ofParts]
    refine Nat.mul_lt_mul_of_pos_right ?_ hscale
    split <;> omega
  simp only [shortest, if_neg h]
  cases hfound : Shortest.Target.search _ _ _ _ with
  | none => exact h
  | some found => exact Shortest.Target.ne_zero_of_search (hbelow _) hfound

namespace Numeral

/-- How the magnitude of a finite double is written: as the digits of a whole number other than zero,
or with a point that has digits on both sides. -/
inductive Magnitude : List Char → Prop
  | whole {n : Nat} (h : n ≠ 0) : Magnitude (nat n)
  | pointed {whole fraction : List Char} (hwhole : whole ≠ []) (hfraction : fraction ≠ [])
    (hdigits : ∀ c ∈ whole ++ fraction, isDigit c = true) : Magnitude (whole ++ '.' :: fraction)

/-- A magnitude starts with a digit. -/
theorem Magnitude.exists_cons {magnitude : List Char} (h : Magnitude magnitude) :
    ∃ c rest, magnitude = c :: rest ∧ isDigit c = true := by
  cases h with
  | @whole n _ =>
    obtain ⟨c, rest, hdigits⟩ := List.exists_cons_of_ne_nil (nat_ne_nil n)
    have hc : c ∈ nat n := by simp [hdigits]
    exact ⟨c, rest, hdigits, isDigit_of_mem_nat hc⟩
  | pointed hwhole _ hdigits =>
    obtain ⟨c, rest, rfl⟩ := List.exists_cons_of_ne_nil hwhole
    exact ⟨c, _, rfl, hdigits c (by simp)⟩

/-- A magnitude has digits and points only. -/
theorem Magnitude.isDigit_or_eq {magnitude : List Char} (h : Magnitude magnitude) {c : Char}
    (hc : c ∈ magnitude) : isDigit c = true ∨ c = '.' := by
  cases h with
  | whole _ => exact Or.inl (isDigit_of_mem_nat hc)
  | pointed _ _ hdigits =>
    rcases List.mem_append.mp hc with hwhole | hrest
    · exact Or.inl (hdigits c (List.mem_append_left _ hwhole))
    rcases List.mem_cons.mp hrest with rfl | hfraction
    · exact Or.inr rfl
    · exact Or.inl (hdigits c (List.mem_append_right _ hfraction))

/-- The sign splits off a magnitude again. -/
theorem Magnitude.splitSign_signed {magnitude : List Char} (h : Magnitude magnitude)
    (minus : Bool) : splitSign (signed minus magnitude) = (minus, magnitude) := by
  obtain ⟨c, rest, rfl, hc⟩ := h.exists_cons
  exact Numeral.splitSign_signed hc rest minus

/-- A decimal other than zero is written as a magnitude. -/
theorem magnitude_positional {x : Decimal} (h : x.digits ≠ 0) : Magnitude (positional x) := by
  have hdigit : ∀ c ∈ nat x.digits, isDigit c = true := fun c hc => isDigit_of_mem_nat hc
  have hpositive := List.length_pos_iff.mpr (nat_ne_nil x.digits)
  simp only [positional]
  split
  · rw [nat_append_zeros h]
    exact .whole (Nat.mul_ne_zero h (by positivity))
  · split
    · refine .pointed ?_ ?_ ?_
      · rw [← List.length_pos_iff, List.length_take]
        omega
      · rw [← List.length_pos_iff, List.length_drop]
        omega
      · rwa [List.take_append_drop]
    · refine Magnitude.pointed (List.cons_ne_nil '0' []) (by simp [nat_ne_nil]) ?_
      intro c hc
      rcases List.mem_append.mp hc with hzero | hrest
      · obtain rfl := List.mem_singleton.mp hzero
        decide
      rcases List.mem_append.mp hrest with hzero | hc
      · obtain rfl := List.eq_of_mem_replicate hzero
        decide
      · exact hdigit c hc

/-- A finite double is written as a magnitude behind its sign. -/
theorem atomDouble_finite {x : Float} {value : Binary} (h : Binary.ofDouble? x = some value) :
    ∃ magnitude, Magnitude magnitude ∧ atomDouble x = signed value.negative magnitude := by
  simp only [atomDouble, h]
  split
  · have hpoint : ".0".toList = '.' :: ['0'] := rfl
    refine ⟨nat value.wholePart ++ ".0".toList, ?_, rfl⟩
    rw [hpoint]
    refine Magnitude.pointed (nat_ne_nil _) (List.cons_ne_nil '0' []) ?_
    intro c hc
    simp only [List.mem_append, List.mem_singleton] at hc
    rcases hc with hc | rfl
    · exact isDigit_of_mem_nat hc
    · decide
  · next hlarge =>
    refine ⟨positional (value.shortest .double), magnitude_positional ?_, rfl⟩
    refine Binary.shortest_ne_zero _ fun hzero => hlarge ?_
    simp [Binary.isWhole, Binary.wholePart, hzero]

/-- The texts of the doubles that have no numeral. -/
theorem atomDouble_special {x : Float} (h : Binary.ofDouble? x = none) :
    atomDouble x = "inf".toList ∨ atomDouble x = "-inf".toList ∨ atomDouble x = "NaN".toList := by
  simp only [atomDouble, h, double]
  split
  · exact Or.inl rfl
  split
  · exact Or.inr (Or.inl rfl)
  · exact Or.inr (Or.inr rfl)

/-- The characters that numbers are written with. -/
def letters : List Char := "0123456789-.infNa".toList

/-- Digits are among the characters that numbers are written with. -/
theorem mem_letters_of_isDigit {c : Char} (h : isDigit c = true) : c ∈ letters := by
  have hrange : 48 ≤ c.toNat ∧ c.toNat ≤ 57 := by
    simp only [isDigit, Bool.and_eq_true, decide_eq_true_eq] at h
    exact h
  obtain ⟨hlow, hhigh⟩ := hrange
  have hc : c = Char.ofNat c.toNat := (Char.ofNat_toNat c).symm
  generalize c.toNat = code at hlow hhigh hc
  subst hc
  interval_cases code <;> decide

/-- So are the characters of a magnitude behind its sign. -/
theorem mem_letters_of_mem_signed {magnitude : List Char}
    (h : ∀ c ∈ magnitude, isDigit c = true ∨ c = '.') {minus : Bool} {c : Char}
    (hc : c ∈ signed minus magnitude) : c ∈ letters := by
  have hletters : ∀ c ∈ magnitude, c ∈ letters := by
    intro c hc
    rcases h c hc with hdigit | rfl
    · exact mem_letters_of_isDigit hdigit
    · decide
  cases minus with
  | false => exact hletters c hc
  | true =>
    rcases List.mem_cons.mp hc with rfl | hc
    · decide
    · exact hletters c hc

/-- The characters of an integer are those that numbers are written with. -/
theorem mem_letters_of_mem_int {n : Int} {c : Char} (hc : c ∈ int n) : c ∈ letters := by
  rw [int_eq_signed] at hc
  exact mem_letters_of_mem_signed (fun _ hc => Or.inl (isDigit_of_mem_nat hc)) hc

/-- So are those of a double. -/
theorem mem_letters_of_mem_atomDouble {x : Float} {c : Char} (hc : c ∈ atomDouble x) :
    c ∈ letters := by
  have hnames : ∀ name ∈ ["inf".toList, "-inf".toList, "NaN".toList], name ⊆ letters := by decide
  cases hx : Binary.ofDouble? x with
  | none => exact hnames _ (by simpa using atomDouble_special hx) hc
  | some value =>
    obtain ⟨magnitude, hmagnitude, htext⟩ := atomDouble_finite hx
    exact mem_letters_of_mem_signed (fun _ hc => hmagnitude.isDigit_or_eq hc) (htext ▸ hc)

/-- An integer has a character. -/
theorem int_ne_nil (n : Int) : int n ≠ [] := by
  unfold int
  split
  · exact List.cons_ne_nil _ _
  · exact nat_ne_nil _

/-- So has a double. -/
theorem atomDouble_ne_nil (x : Float) : atomDouble x ≠ [] := by
  cases hx : Binary.ofDouble? x with
  | none => rcases atomDouble_special hx with htext | htext | htext <;> rw [htext] <;> decide
  | some value =>
    obtain ⟨magnitude, hmagnitude, htext⟩ := atomDouble_finite hx
    obtain ⟨c, rest, rfl, -⟩ := hmagnitude.exists_cons
    rw [htext, signed]
    split <;> exact List.cons_ne_nil _ _

end Numeral

end Patchbay
