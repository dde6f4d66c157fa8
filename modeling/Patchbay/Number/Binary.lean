/-!
# Exact values of floating-point numbers

A finite floating-point number is an integer times a power of two. `Binary` holds that exact value,
`ofDouble?` and `ofSingle?` read it off the bits, and the roundings to whole numbers are taken on
exact integers. Infinities and NaN have no exact value.
-/

namespace Patchbay

/-- The exact value `mantissa * 2 ^ exponent`, negated if the sign bit is set. -/
structure Binary where
  negative : Bool
  mantissa : Nat
  exponent : Int
deriving DecidableEq, Repr, Inhabited

/-- The layout of a binary interchange format: how many bits hold the fraction and the exponent, and
how many decimal digits always suffice to tell two of its numbers apart. -/
structure BinaryFormat where
  fractionBits : Nat
  exponentBits : Nat
  digits : Nat
deriving DecidableEq, Repr

namespace BinaryFormat

/-- Double precision. -/
def double : BinaryFormat := ⟨52, 11, 17⟩

/-- Single precision. -/
def single : BinaryFormat := ⟨23, 8, 9⟩

/-- The mantissa's leading bit, which numbers of normal size have in front of their fraction. -/
def leadingBit (format : BinaryFormat) : Nat := 1 <<< format.fractionBits

/-- The power field of infinities and NaN. -/
def topPower (format : BinaryFormat) : Nat := 1 <<< format.exponentBits - 1

/-- The exponent of the smallest positive number. -/
def lowest (format : BinaryFormat) : Int :=
  2 - (1 <<< (format.exponentBits - 1) : Nat) - format.fractionBits

end BinaryFormat

namespace Binary

/-- Decode the bits of a number; infinities and NaN have no exact value. -/
def ofBits? (format : BinaryFormat) (bits : Nat) : Option Binary :=
  let fraction := bits % format.leadingBit
  let power := bits >>> format.fractionBits % (format.topPower + 1)
  let negative := bits >>> (format.fractionBits + format.exponentBits) % 2 == 1
  if power = format.topPower then none
  else if power = 0 then some ⟨negative, fraction, format.lowest⟩
  else some ⟨negative, format.leadingBit + fraction, format.lowest + power - 1⟩

/-- The exact value of a double, if it is finite. -/
def ofDouble? (x : Float) : Option Binary := ofBits? .double x.toBits.toNat

/-- The exact value of a single, if it is finite. -/
def ofSingle? (x : Float32) : Option Binary := ofBits? .single x.toBits.toNat

/-- The largest whole number not above the magnitude. -/
def wholePart (x : Binary) : Nat :=
  if 0 ≤ x.exponent then x.mantissa <<< x.exponent.toNat
  else x.mantissa >>> (-x.exponent).toNat

/-- The whole number nearest to the magnitude, a half going up. -/
def rounded (x : Binary) : Nat :=
  if 0 ≤ x.exponent then x.mantissa <<< x.exponent.toNat
  else
    let unit := 1 <<< (-x.exponent).toNat
    (2 * x.mantissa + unit) / (2 * unit)

/-- Decide whether the value is a whole number. -/
def isWhole (x : Binary) : Bool :=
  0 ≤ x.exponent || x.mantissa % 1 <<< (-x.exponent).toNat == 0

/-- Round toward zero. -/
def truncate (x : Binary) : Int :=
  if x.negative then -(x.wholePart : Int) else x.wholePart

/-- Round toward negative infinity. -/
def floor (x : Binary) : Int :=
  if x.negative && !x.isWhole then x.truncate - 1 else x.truncate

/-- Round toward positive infinity. -/
def ceil (x : Binary) : Int :=
  if !x.negative && !x.isWhole then x.truncate + 1 else x.truncate

end Binary

/-- Divide and round to the nearest whole number, a half to the even one. -/
def roundedQuotient (numerator denominator : Nat) : Nat :=
  let quotient := numerator / denominator
  let twice := 2 * (numerator % denominator)
  if twice < denominator || (twice == denominator && quotient % 2 == 0) then quotient
  else quotient + 1

/-- Read an integer as one of 64 bits, if it is in their range. -/
def Long.ofInt? (n : Int) : Option Int64 :=
  if Int64.minValue.toInt ≤ n ∧ n ≤ Int64.maxValue.toInt then some (Int64.ofInt n) else none

/-- Bring an integer into the range of 64 bits, stopping at its ends. -/
def Long.clamp (n : Int) : Int64 :=
  Int64.ofInt (max Int64.minValue.toInt (min Int64.maxValue.toInt n))

/-- Bring a double to a 64-bit integer by a rounding of exact values: out of range stops at the
ends, and NaN is zero. -/
def Long.ofDouble (round : Binary → Int) (x : Float) : Int64 :=
  match Binary.ofDouble? x with
  | some value => Long.clamp (round value)
  | none => if x > 0.0 then Int64.maxValue else if x < 0.0 then Int64.minValue else 0

/-- The double nearest to a 64-bit integer. -/
def Long.toDouble (n : Int64) : Float := Float.ofInt n.toInt

end Patchbay
