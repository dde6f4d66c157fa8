import Patchbay.Number.Notation
import Patchbay.Toml.Node

/-!
# Numbers, truth values and moments

The values of a TOML document that are written as one word. A word is a longest run of letters,
digits and a few signs; which kind of value it is shows from its form.
-/

namespace Patchbay.Toml.Scalar

open Numeral

/-- Decide whether a character can stand in a word. -/
def isWordChar (c : Char) : Bool := c.isAlphanum || "+-_.:".toList.contains c

/-- Decide whether digits stand in a row, with at most one underscore between any two. -/
def isRun (isDigit : Char → Bool) : List Char → Bool
  | [] => false
  | [c] => isDigit c
  | c :: '_' :: rest => isDigit c && isRun isDigit rest
  | c :: rest => isDigit c && isRun isDigit rest

/-- Decide whether a text is a whole number without a sign: no zero stands in front of digits. -/
def isWhole (text : List Char) : Bool :=
  isRun isDigit text && (text.length == 1 || text.head? != some '0')

/-- The value of a digit in a base of up to sixteen. -/
def digitValue (c : Char) : Nat :=
  if isDigit c then c.toNat - '0'.toNat else c.toLower.toNat - 'a'.toNat + 10

/-- Decide whether a character is a digit in a base of up to sixteen. -/
def isDigitOf (base : Nat) (c : Char) : Bool :=
  (isDigit c || ('a' ≤ c.toLower && c.toLower ≤ 'f')) && digitValue c < base

/-- A whole number in a base, if it is one of 64 bits. -/
def wholeNumber? (base : Nat) (negative : Bool) (digits : List Char) : Option Node :=
  let magnitude : Int :=
    (digits.filter (· != '_')).foldl (fun value c => base * value + digitValue c) 0
  (Long.ofInt? (if negative then -magnitude else magnitude)).map .integer

/-- The integer of a word. Only decimal ones have a sign. -/
def integer? (word : List Char) : Option Node :=
  let based (base : Nat) (digits : List Char) : Option Node :=
    if isRun (isDigitOf base) digits then wholeNumber? base false digits else none
  match word with
  | '0' :: 'x' :: digits => based 16 digits
  | '0' :: 'o' :: digits => based 8 digits
  | '0' :: 'b' :: digits => based 2 digits
  | _ =>
    let (negative, digits) := splitSign word
    if isWhole digits then wholeNumber? 10 negative digits else none

/-- Decide whether a text is the exponent of a decimal, marker included. -/
def isExponent : List Char → Bool
  | c :: rest => (c == 'e' || c == 'E') && isRun isDigit (splitSign rest).2
  | [] => false

/-- Decide whether a text is a decimal without a sign: a whole number with a fraction, an exponent,
or both. -/
def isDecimal (text : List Char) : Bool :=
  let isPart (c : Char) := isDigit c || c == '_'
  let rest := text.dropWhile isPart
  isWhole (text.takeWhile isPart) &&
    match rest with
    | '.' :: fraction =>
      isRun isDigit (fraction.takeWhile isPart) &&
        (let tail := fraction.dropWhile isPart
         tail.isEmpty || isExponent tail)
    | _ => isExponent rest

/-- The decimal of a word. A number too large for a double is refused. -/
def decimal? (word : List Char) : Option Node :=
  let magnitude := (splitSign word).2
  if magnitude = "inf".toList || magnitude = "nan".toList then (readDouble? word).map .decimal
  else if isDecimal magnitude then
    match readDouble? (word.filter (· != '_')) with
    | some value => if value == 1.0 / 0.0 then none else some (.decimal value)
    | none => none
  else none

/-- The number that exactly so many digits stand for, and the text behind it. -/
def fixed? (count : Nat) (text : List Char) : Option (Nat × List Char) :=
  let digits := text.take count
  if digits.length = count && digits.all isDigit then some (natValue digits, text.drop count)
  else none

/-- The number of days in a month. -/
def monthLength (year month : Nat) : Nat :=
  if month = 2 then
    if year % 4 = 0 ∧ (year % 100 ≠ 0 ∨ year % 400 = 0) then 29 else 28
  else if [4, 6, 9, 11].contains month then 30
  else 31

/-- Read a date, and give the text behind it. -/
def date? (text : List Char) : Option (List Char) := do
  let (year, text) ← fixed? 4 text
  let '-' :: text := text | none
  let (month, text) ← fixed? 2 text
  let '-' :: text := text | none
  let (day, text) ← fixed? 2 text
  if 1 ≤ month && month ≤ 12 && 1 ≤ day && day ≤ monthLength year month then some text else none

/-- Read a time of day, and give the text behind it. -/
def time? (text : List Char) : Option (List Char) := do
  let (hour, text) ← fixed? 2 text
  let ':' :: text := text | none
  let (minute, text) ← fixed? 2 text
  let ':' :: text := text | none
  let (second, text) ← fixed? 2 text
  if hour ≤ 23 && minute ≤ 59 && second ≤ 60 then
    match text with
    | '.' :: fraction =>
      if (fraction.takeWhile isDigit).isEmpty then none else some (fraction.dropWhile isDigit)
    | _ => some text
  else none

/-- Decide whether a text is nothing, or how far a time is ahead of world time. -/
def isOffset (text : List Char) : Bool :=
  match text with
  | [] | ['Z'] | ['z'] => true
  | sign :: rest =>
    (sign == '+' || sign == '-') &&
      match fixed? 2 rest with
      | some (hour, ':' :: rest) =>
        match fixed? 2 rest with
        | some (minute, []) => hour ≤ 23 && minute ≤ 59
        | _ => false
      | _ => false

/-- Decide whether a text is a time with an offset or without. -/
def isTimeOfDate (text : List Char) : Bool := ((time? text).map isOffset).getD false

/-- Decide whether a word is a date, a time, or both. -/
def isMoment (word : List Char) : Bool :=
  match date? word with
  | some [] => true
  | some (c :: text) => (c == 'T' || c == 't' || c == ' ') && isTimeOfDate text
  | none => time? word == some []

/-- The value of a word. -/
def ofWord? (word : List Char) : Option Node :=
  if word = "true".toList then some (.boolean true)
  else if word = "false".toList then some (.boolean false)
  else if isMoment word then some (.moment (String.ofList word))
  else (decimal? word).orElse fun _ => integer? word

/-- Take a value off the front of a text. A date may be followed by a blank and the time. -/
def take? (text : List Char) : Option (Node × List Char) :=
  let word := text.takeWhile isWordChar
  let rest := text.dropWhile isWordChar
  let whole := match rest with
    | ' ' :: more => word ++ ' ' :: more.takeWhile isWordChar
    | _ => word
  if date? word = some [] && isMoment whole then
    some (.moment (String.ofList whole), text.drop whole.length)
  else (ofWord? word).map fun node => (node, rest)

end Patchbay.Toml.Scalar
