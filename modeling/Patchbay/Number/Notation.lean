import Patchbay.Number.Shortest

/-!
# Numbers as text

How integers and floating-point numbers are written and read. Numbers are written positionally,
whatever their size, with the fewest digits that read back. The reader of numerals also knows
exponents, a leading plus sign, and the names of infinity and NaN.
-/

namespace Patchbay

namespace Numeral

/-- The digits of a natural number in base ten. -/
def nat (n : Nat) : List Char := Nat.toDigits 10 n

/-- An integer with a minus sign in front of negative values. -/
def int (n : Int) : List Char :=
  if n < 0 then '-' :: nat n.natAbs else nat n.natAbs

/-- A decimal written without an exponent. -/
def positional (x : Decimal) : List Char :=
  let digits := nat x.digits
  if 0 ≤ x.exponent then digits ++ List.replicate x.exponent.toNat '0'
  else
    let places := (-x.exponent).toNat
    if places < digits.length then
      digits.take (digits.length - places) ++ '.' :: digits.drop (digits.length - places)
    else '0' :: '.' :: List.replicate (places - digits.length) '0' ++ digits

/-- A finite number with its sign, positionally and with the fewest digits that read back. -/
def finite (format : BinaryFormat) (x : Binary) : List Char :=
  let magnitude := positional (x.shortest format)
  if x.negative then '-' :: magnitude else magnitude

/-- A double as plain text; a whole number has no point. -/
def double (x : Float) : List Char :=
  match Binary.ofDouble? x with
  | some value => finite .double value
  | none => if x > 0.0 then "inf".toList else if x < 0.0 then "-inf".toList else "NaN".toList

/-- A single as plain text; a whole number has no point. -/
def single (x : Float32) : List Char :=
  match Binary.ofSingle? x with
  | some value => finite .single value
  | none => if x > 0.0 then "inf".toList else if x < 0.0 then "-inf".toList else "NaN".toList

/-- A double as it stands in messages and files: whole numbers below 10^15 keep one decimal. -/
def atomDouble (x : Float) : List Char :=
  match Binary.ofDouble? x with
  | some value =>
    if value.isWhole && value.wholePart < Nat.pow 10 15 then
      let whole := nat value.wholePart ++ ".0".toList
      if value.negative then '-' :: whole else whole
    else finite .double value
  | none => double x

/-- A non-negative value with a fixed number of decimals, rounded to the nearest, a half to the even
one. -/
def fixed (places : Nat) (x : Binary) : List Char :=
  let unit := Nat.pow 10 places
  let scaled :=
    if 0 ≤ x.exponent then (x.mantissa * unit) <<< x.exponent.toNat
    else roundedQuotient (x.mantissa * unit) (1 <<< (-x.exponent).toNat)
  let fraction := nat (scaled % unit)
  nat (scaled / unit) ++ '.' :: List.replicate (places - fraction.length) '0' ++ fraction

/-- Decide whether a character is one of the ten ASCII digits. -/
def isDigit (c : Char) : Bool := '0' ≤ c && c ≤ '9'

/-- The value of a run of digits. -/
def natValue (digits : List Char) : Nat :=
  digits.foldl (fun value c => 10 * value + (c.toNat - '0'.toNat)) 0

/-- Split an optional sign off a text; the flag tells whether it is a minus. -/
def splitSign : List Char → Bool × List Char
  | '-' :: rest => (true, rest)
  | '+' :: rest => (false, rest)
  | text => (false, text)

/-- Read a 64-bit integer: an optional sign and at least one digit, within range. -/
def readLong? (text : List Char) : Option Int64 :=
  let (negative, digits) := splitSign text
  if digits.isEmpty || !digits.all isDigit then none
  else
    let magnitude : Int := natValue digits
    Long.ofInt? (if negative then -magnitude else magnitude)

/-- The double nearest to `digits * 10 ^ exponent`. Magnitudes far outside the range of doubles are
settled without computing the power. -/
def nearestDouble (digits : Nat) (exponent : Int) : Float :=
  let magnitude := exponent + Shortest.digitCount digits
  if digits = 0 || magnitude < -400 then 0.0
  else if magnitude > 400 then 1.0 / 0.0
  else Float.ofScientific digits (exponent < 0) exponent.natAbs

/-- The names of the values that have no numeral, whatever their case. -/
def readNamed? (text : List Char) : Option Float :=
  let lower := text.map Char.toLower
  if lower = "inf".toList || lower = "infinity".toList then some (1.0 / 0.0)
  else if lower = "nan".toList then some (0.0 / 0.0)
  else none

/-- Read the exponent of a numeral, marker included; no text is the exponent zero. -/
def readExponent? : List Char → Option Int
  | [] => some 0
  | c :: rest =>
    if c = 'e' || c = 'E' then
      let (negative, digits) := splitSign rest
      if digits.isEmpty || !digits.all isDigit then none
      else some (if negative then -(natValue digits : Int) else natValue digits)
    else none

/-- Read an unsigned numeral: digits with at most one point, at least one digit, and an optional
exponent. -/
def readUnsigned? (text : List Char) : Option Float :=
  let whole := text.takeWhile isDigit
  let rest := text.dropWhile isDigit
  let (fraction, tail) := match rest with
    | '.' :: after => (after.takeWhile isDigit, after.dropWhile isDigit)
    | _ => ([], rest)
  if whole.isEmpty && fraction.isEmpty then none
  else (readExponent? tail).map fun exponent =>
    nearestDouble (natValue (whole ++ fraction)) (exponent - fraction.length)

/-- Read a double: an optional sign, then a numeral or the name of a special value. -/
def readDouble? (text : List Char) : Option Float :=
  let (negative, magnitude) := splitSign text
  ((readNamed? magnitude).orElse fun _ => readUnsigned? magnitude).map
    fun value => if negative then -value else value

end Numeral

end Patchbay
