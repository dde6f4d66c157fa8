/-!
# Blank characters

Which characters separate words. The set is Unicode's `White_Space` property, so it holds the
no-break space and the line separators as well as the blanks of ASCII.
-/

namespace Patchbay.Text

/-- Decide whether a character has Unicode's `White_Space` property. -/
def isBlank (c : Char) : Bool :=
  (9 ≤ c.val && c.val ≤ 13) || c.val == 0x20 || c.val == 0x85 || c.val == 0xA0 ||
  c.val == 0x1680 || (0x2000 ≤ c.val && c.val ≤ 0x200A) || c.val == 0x2028 || c.val == 0x2029 ||
  c.val == 0x202F || c.val == 0x205F || c.val == 0x3000

/-- Drop the blanks at the front of a text. -/
def trimFront (text : List Char) : List Char := text.dropWhile isBlank

/-- Drop the blanks at the end of a text. -/
def trimBack (text : List Char) : List Char := (text.reverse.dropWhile isBlank).reverse

/-- Drop the blanks at both ends of a text. -/
def trim (text : List Char) : List Char := trimBack (trimFront text)

/-- Cut a text at its newlines; a newline at the very end starts no further line. -/
def lines : List Char → List (List Char)
  | [] => []
  | c :: rest =>
    if c = '\n' then [] :: lines rest
    else match lines rest with
      | [] => [[c]]
      | line :: others => (c :: line) :: others

/-- Cut a text at every place where a character stands. -/
def split (mark : Char) : List Char → List (List Char)
  | [] => [[]]
  | c :: rest =>
    if c = mark then [] :: split mark rest
    else match split mark rest with
      | [] => [[c]]
      | part :: others => (c :: part) :: others

/-- Split a text at its first blank, which is dropped; without one everything is in front. -/
def splitAtBlank (text : List Char) : List Char × List Char :=
  (text.takeWhile fun c => !isBlank c, (text.dropWhile fun c => !isBlank c).drop 1)

/-- The words of a text: its longest parts without blanks. -/
def words : List Char → List (List Char)
  | [] => []
  | [c] => if isBlank c then [] else [[c]]
  | c :: d :: rest =>
    if isBlank c then words (d :: rest)
    else if isBlank d then [c] :: words (d :: rest)
    else match words (d :: rest) with
      | [] => [[c]]
      | word :: others => (c :: word) :: others

/-- Drop one given character from the end of a text, if it stands there. -/
def dropTrailing (c : Char) (text : List Char) : List Char :=
  if text.getLast? = some c then text.dropLast else text

/-- Pad a text with spaces on the right up to a number of characters. -/
def padRight (width : Nat) (text : List Char) : List Char :=
  text ++ List.replicate (width - text.length) ' '

/-- Every blank of core's class is a blank here. -/
theorem isBlank_of_isWhitespace (c : Char) (h : c.isWhitespace = true) : isBlank c = true := by
  simp only [Char.isWhitespace, Bool.or_eq_true, decide_eq_true_eq] at h
  rcases h with ((rfl | rfl) | rfl) | rfl <;> decide

end Patchbay.Text
