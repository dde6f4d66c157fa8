import Patchbay.Dico.Notation
import Patchbay.Text.Blank

/-!
# Atoms in a line of text

The notation of messages typed on one line. Blanks separate the atoms. A double quote that is
closed later in the text opens a symbol that may hold blanks; inside it a backslash stands before a
quote or a backslash. A run of digits, with an optional minus sign and at most one point, is a
number, and everything else is a symbol.

Writing quotes a symbol whenever its bare text would be read as anything else.
-/

namespace Patchbay.Words

open Text

/-- Read the rest of a quoted symbol, up to and past its closing quote. -/
def closeQuote? : List Char → Option (List Char × List Char)
  | [] => none
  | '"' :: rest => some ([], rest)
  | '\\' :: '"' :: rest => (closeQuote? rest).map fun (text, rest) => ('"' :: text, rest)
  | '\\' :: '\\' :: rest => (closeQuote? rest).map fun (text, rest) => ('\\' :: text, rest)
  | c :: rest => (closeQuote? rest).map fun (text, rest) => (c :: text, rest)

/-- A quoted symbol takes at least its closing quote. -/
theorem length_of_closeQuote? {text : List Char} {found : List Char × List Char}
    (h : closeQuote? text = some found) : found.2.length < text.length := by
  fun_induction closeQuote? text generalizing found with
  | case1 => simp at h
  | case2 rest => simp at h; simp [← h]
  | case3 rest ih | case4 rest ih | case5 c rest _ _ _ ih =>
    obtain ⟨inner, hinner, rfl⟩ := Option.map_eq_some_iff.1 h
    have := ih hinner
    simp only [List.length_cons]
    omega

/-- Read a quoted symbol at the front of a text; a quote that is never closed opens none. -/
def quoted? : List Char → Option (List Char × List Char)
  | [] => none
  | c :: rest => if c = '"' then closeQuote? rest else none

/-- A quoted symbol takes characters off the text. -/
theorem length_of_quoted? {text : List Char} {found : List Char × List Char}
    (h : quoted? text = some found) : found.2.length < text.length := by
  cases text with
  | nil => simp [quoted?] at h
  | cons c rest =>
    by_cases hc : c = '"'
    · have := length_of_closeQuote? (by simpa [quoted?, hc] using h)
      simp only [List.length_cons]
      omega
    · simp [quoted?, hc] at h

/-- Decide whether a word is written as a number: an optional minus sign, then digits with at most
one point and at least one digit. -/
def isNumeral (word : List Char) : Bool :=
  let body := match word with
    | '-' :: rest => rest
    | _ => word
  body.all (fun c => Numeral.isDigit c || c == '.') && body.any Numeral.isDigit &&
    body.count '.' ≤ 1

/-- The atom of a word without quotes. An integer too large for 64 bits is a double. -/
def ofWord (word : List Char) : Atom :=
  if isNumeral word then
    if word.contains '.' then .double ((Numeral.readDouble? word).getD 0.0)
    else match Numeral.readLong? word with
      | some value => .long value
      | none => .double ((Numeral.readDouble? word).getD 0.0)
  else .symbol (String.ofList word)

/-- Read the atoms of a text. -/
def read (text : List Char) : List Atom :=
  match text with
  | [] => []
  | c :: rest =>
    if isBlank c then read rest
    else
      match _ : quoted? (c :: rest) with
      | some (symbol, after) => .symbol (String.ofList symbol) :: read after
      | none =>
        ofWord (c :: rest.takeWhile (!isBlank ·)) :: read (rest.dropWhile (!isBlank ·))
termination_by text.length
decreasing_by
  · simp
  · exact length_of_quoted? (by assumption)
  · have := (List.dropWhile_suffix (!isBlank ·) (l := rest)).length_le
    simp only [List.length_cons]
    omega

/-- Decide whether a symbol reads back from its bare text. -/
def isBare (text : String) : Bool :=
  text.toList.head? != some '"' &&
    match read text.toList with
    | [.symbol found] => found == text
    | _ => false

/-- The text of a symbol, quoted if need be. -/
def symbol (text : String) : List Char :=
  if isBare text then text.toList else quote plainCode text.toList

mutual

/-- The text of one atom. -/
def word : Atom → List Char
  | .undefined => []
  | .bool value => if value then ['1'] else ['0']
  | .long value => Numeral.int value.toInt
  | .double value _ => Numeral.atomDouble value
  | .symbol text => symbol text
  | .vector items => '[' :: [' '].intercalate (words items) ++ [']']
  | .dico entries _ => (Notation.text entries).map fun c => if c = '\n' then ' ' else c

/-- The texts of several atoms. -/
def words : List Atom → List (List Char)
  | [] => []
  | atom :: rest => word atom :: words rest

end

/-- Write atoms on one line, with a space between them. -/
def write (atoms : List Atom) : List Char := [' '].intercalate (words atoms)

end Patchbay.Words
