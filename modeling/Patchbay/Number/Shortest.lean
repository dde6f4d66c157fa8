import Patchbay.Number.Binary

/-!
# Shortest decimals

The fewest decimal digits that single out one floating-point number. Every real in an interval
around the number reads back as it; the interval's ends do so exactly when the mantissa is even.
For one digit, two digits and so on, the two neighbours of the number on that decimal grid are
tested, and the first grid with a neighbour in the interval wins. Of two neighbours the nearer one
is taken, and the upper one if they are equally near. All arithmetic is exact.
-/

namespace Patchbay

/-- A decimal `digits * 10 ^ exponent`. -/
structure Decimal where
  digits : Nat
  exponent : Int
deriving DecidableEq, Repr, Inhabited

namespace Shortest

/-- A positive number with the interval of reals that read back as it, over one denominator. -/
structure Target where
  value : Nat
  below : Nat
  above : Nat
  denominator : Nat
  closed : Bool
deriving Repr

/-- The interval around `mantissa * 2 ^ exponent`; the lower half is half as wide at the bottom of
a binade, which `tight` marks. -/
def Target.ofParts (mantissa : Nat) (exponent : Int) (tight : Bool) : Target :=
  let scale := if 0 ≤ exponent then 1 <<< exponent.toNat else 1
  let denominator := if 0 ≤ exponent then 4 else 4 <<< (-exponent).toNat
  { value := 4 * mantissa * scale
    below := (if tight then 1 else 2) * scale
    above := 2 * scale
    denominator
    closed := mantissa % 2 == 0 }

/-- Decide whether the fraction lies in the interval. -/
def Target.admits (target : Target) (numerator denominator : Nat) : Bool :=
  let point := numerator * target.denominator
  let low := (target.value - target.below) * denominator
  let high := (target.value + target.above) * denominator
  if target.closed then low ≤ point && point ≤ high else low < point && point < high

/-- The number of decimal digits of a natural number; zero has none. -/
def digitCount (n : Nat) : Nat :=
  if n = 0 then 0 else (Nat.toDigits 10 n).length

/-- The exponent `p` with `10 ^ (p - 1) ≤ value < 10 ^ p`. -/
def Target.magnitude (target : Target) : Int :=
  if target.denominator ≤ target.value then digitCount (target.value / target.denominator)
  else 1 - digitCount ((target.denominator + target.value - 1) / target.value - 1)

/-- Drop one trailing zero, which rounding up to a power of ten leaves behind. -/
def dropZero (x : Decimal) : Decimal :=
  if x.digits % 10 = 0 then ⟨x.digits / 10, x.exponent + 1⟩ else x

/-- The nearest admitted neighbour of the number on the grid with the given count of digits. -/
def Target.onGrid (target : Target) (magnitude : Int) (count : Nat) : Option Decimal :=
  let exponent := magnitude - count
  let up := Nat.pow 10 exponent.toNat
  let down := Nat.pow 10 (-exponent).toNat
  let numerator := target.value * down
  let denominator := target.denominator * up
  let digits := numerator / denominator
  let remainder := numerator % denominator
  let lower := target.admits (digits * up) down
  let upper := target.admits ((digits + 1) * up) down
  if lower && upper then
    some (dropZero ⟨if 2 * remainder < denominator then digits else digits + 1, exponent⟩)
  else if lower then some ⟨digits, exponent⟩
  else if upper then some (dropZero ⟨digits + 1, exponent⟩)
  else none

/-- Search the grids from `count` digits on, for at most `remaining` more grids. -/
def Target.search (target : Target) (magnitude : Int) (count remaining : Nat) : Option Decimal :=
  match remaining with
  | 0 => none
  | remaining + 1 =>
    (target.onGrid magnitude count).orElse
      fun _ => target.search magnitude (count + 1) remaining

end Shortest

/-- The shortest decimal that reads back as the magnitude of a number of the format. At the bottom
of a binade other than the lowest, the next number below is nearer than the next one above. -/
def Binary.shortest (format : BinaryFormat) (x : Binary) : Decimal :=
  if x.mantissa = 0 then ⟨0, 0⟩
  else
    let tight := x.mantissa == format.leadingBit && x.exponent != format.lowest
    let target := Shortest.Target.ofParts x.mantissa x.exponent tight
    (target.search target.magnitude 1 format.digits).getD ⟨x.mantissa, x.exponent⟩

end Patchbay
