import Patchbay.Atom.Basic

/-!
# Atoms for inspection

A text that shows the kind of every atom, for tracing. Characters that do not show are written as
escapes. Only ASCII texts are covered; other characters stand as they are.
-/

namespace Patchbay.Inspect

/-- A character inside quotes, as an escape if it would not show. -/
def character (c : Char) : List Char :=
  if c = '\t' then "\\t".toList
  else if c = '\r' then "\\r".toList
  else if c = '\n' then "\\n".toList
  else if c = '\x00' then "\\0".toList
  else if c = '"' || c = '\\' then ['\\', c]
  else if c.val < 0x20 || c.val == 0x7F then
    "\\u\x7b".toList ++ Nat.toDigits 16 c.toNat ++ ['\x7d']
  else [c]

/-- A text in quotes. -/
def text (s : String) : List Char := '"' :: s.toList.flatMap character ++ ['"']

/-- Brackets around a list of texts. -/
def enclose (left right : Char) (items : List (List Char)) : List Char :=
  left :: ", ".toList.intercalate items ++ [right]

mutual

/-- An atom with its kind. -/
def atom : Atom → List Char
  | .undefined => "Undefined".toList
  | .bool value => "Bool(".toList ++ (if value then "true" else "false").toList ++ [')']
  | .long value => "Long(".toList ++ Numeral.int value.toInt ++ [')']
  | .double value _ => "Double(".toList ++ Numeral.double value ++ [')']
  | .symbol s => "Symbol(".toList ++ text s ++ [')']
  | .vector items => enclose '[' ']' (atoms items)
  | .dico entries _ => enclose '\x7b' '\x7d' (fields entries)

/-- Several atoms with their kinds. -/
def atoms : List Atom → List (List Char)
  | [] => []
  | item :: rest => atom item :: atoms rest

/-- The entries of a dico. -/
def fields : List (String × List Atom) → List (List Char)
  | [] => []
  | (key, values) :: rest =>
    (text key ++ ": ".toList ++ enclose '[' ']' (atoms values)) :: fields rest

end

end Patchbay.Inspect
