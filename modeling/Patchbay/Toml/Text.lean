import Patchbay.Toml.Node

/-!
# Texts in a TOML document

Texts stand between quotation marks, in which a backslash starts an escape, or between apostrophes,
where everything means itself. Three marks in place of one allow for several lines. Written texts
are put between apostrophes only if that saves escapes.
-/

namespace Patchbay.Toml.Text

/-- Decide whether a character may stand for itself in any text. -/
def isPlain (c : Char) : Bool := c == '\t' || (' ' ≤ c && c != '\x7f')

/-- The value of hexadecimal digits. -/
def hexValue? (digits : List Char) : Option Nat :=
  digits.foldlM (fun value c =>
    if '0' ≤ c && c ≤ '9' then some (16 * value + (c.toNat - '0'.toNat))
    else if 'a' ≤ c.toLower && c.toLower ≤ 'f' then
      some (16 * value + (c.toLower.toNat - 'a'.toNat + 10))
    else none) 0

/-- The character of a code, if there is one. -/
def charOf? (code : Nat) : Option Char := if code.isValidChar then some (Char.ofNat code) else none

/-- Read an escape behind its backslash. -/
def escape? : List Char → Option (Char × List Char)
  | 'b' :: rest => some ('\x08', rest)
  | 't' :: rest => some ('\t', rest)
  | 'n' :: rest => some ('\n', rest)
  | 'f' :: rest => some ('\x0c', rest)
  | 'r' :: rest => some ('\r', rest)
  | '"' :: rest => some ('"', rest)
  | '\\' :: rest => some ('\\', rest)
  | 'u' :: rest =>
    if rest.length < 4 then none
    else ((hexValue? (rest.take 4)).bind charOf?).map fun c => (c, rest.drop 4)
  | 'U' :: rest =>
    if rest.length < 8 then none
    else ((hexValue? (rest.take 8)).bind charOf?).map fun c => (c, rest.drop 8)
  | _ => none

/-- Skip blanks and line breaks. -/
def skipSpace : List Char → List Char
  | ' ' :: rest => skipSpace rest
  | '\t' :: rest => skipSpace rest
  | '\n' :: rest => skipSpace rest
  | '\r' :: '\n' :: rest => skipSpace rest
  | rest => rest

/-- Decide whether a line ends here, but for blanks. -/
def atLineEnd : List Char → Bool
  | ' ' :: rest => atLineEnd rest
  | '\t' :: rest => atLineEnd rest
  | '\n' :: _ => true
  | '\r' :: '\n' :: _ => true
  | _ => false

/-- Put a character in front of a text that is being read. -/
def front (c : Char) (read : List Char × List Char) : List Char × List Char :=
  (c :: read.1, read.2)

/-- Read a text of one line up to its closing mark, of at most `steps` characters. -/
def line? (mark : Char) : (steps : Nat) → List Char → Option (List Char × List Char)
  | 0, _ => none
  | _ + 1, [] => none
  | steps + 1, c :: rest =>
    if c = mark then some ([], rest)
    else if c = '\\' ∧ mark = '"' then
      match escape? rest with
      | some (c, rest) => (line? mark steps rest).map (front c)
      | none => none
    else if isPlain c then (line? mark steps rest).map (front c)
    else none

/-- Read a text of several lines up to its three closing marks, of at most `steps` characters. One
or two marks stand for themselves, also right before the closing ones. -/
def lines? (mark : Char) : (steps : Nat) → List Char → Option (List Char × List Char)
  | 0, _ => none
  | _ + 1, [] => none
  | _ + 1, '\r' :: [] => none
  | steps + 1, '\r' :: c :: rest =>
    if c = '\n' then (lines? mark steps rest).map (front '\n') else none
  | steps + 1, c :: rest =>
    if c = mark then
      let marks := (c :: rest).takeWhile (· == mark)
      let behind := (c :: rest).drop marks.length
      if marks.length < 3 then
        (lines? mark steps behind).map fun read => (marks ++ read.1, read.2)
      else if marks.length ≤ 5 then some (marks.drop 3, behind)
      else none
    else if c = '\\' ∧ mark = '"' then
      if atLineEnd rest then lines? mark steps (skipSpace rest)
      else
        match escape? rest with
        | some (c, rest) => (lines? mark steps rest).map (front c)
        | none => none
    else if c = '\n' || isPlain c then (lines? mark steps rest).map (front c)
    else none

/-- Take a text of one line off the front of a text. -/
def takeLine? : List Char → Option (List Char × List Char)
  | '"' :: rest => line? '"' (rest.length + 1) rest
  | '\'' :: rest => line? '\'' (rest.length + 1) rest
  | _ => none

/-- Take a text off the front of a text. A line break right behind three opening marks does not
count. -/
def take? (text : List Char) : Option (List Char × List Char) :=
  let several (mark : Char) (rest : List Char) : Option (List Char × List Char) :=
    let content := match rest with
      | '\n' :: rest => rest
      | '\r' :: '\n' :: rest => rest
      | _ => rest
    lines? mark (content.length + 1) content
  match text with
  | '"' :: '"' :: '"' :: rest => several '"' rest
  | '\'' :: '\'' :: '\'' :: rest => several '\'' rest
  | _ => takeLine? text

/-- The longest row of a character. -/
def longestRow (c : Char) (text : List Char) : Nat :=
  (text.foldl (fun (row, longest) d =>
    let row := if d = c then row + 1 else 0
    (row, max longest row)) ((0, 0) : Nat × Nat)).2

/-- The forms in which a text can be written: between quotation marks, where characters can be
escaped, or between apostrophes, where they cannot, and with one mark or with three. -/
inductive Form where
  | quoted
  | literal
  | quotedLines
  | literalLines
deriving DecidableEq, Repr, Inhabited

/-- The form in which a text is written: the first of the four in which nothing has to be escaped.
If there is none, quotation marks are used, three of them if there is a line break. -/
def form (text : List Char) : Form :=
  let allowed := text.all fun c => isPlain c || c == '\n'
  let unescaped := allowed && !text.contains '\\'
  let broken := text.contains '\n'
  let quotes := longestRow '"' text
  let apostrophes := longestRow '\'' text
  if unescaped && quotes = 0 && !broken then .quoted
  else if allowed && apostrophes = 0 && !broken then .literal
  else if unescaped && quotes ≤ 2 then .quotedLines
  else if allowed && apostrophes ≤ 2 then .literalLines
  else if broken then .quotedLines
  else .quoted

/-- Four hexadecimal digits of a number. -/
def fourDigits (n : Nat) : List Char :=
  let digits := (Nat.toDigits 16 n).map Char.toUpper
  List.replicate (4 - digits.length) '0' ++ digits

/-- A character other than a quotation mark, between one mark or three of them. -/
def escaped (several : Bool) (c : Char) : List Char :=
  match c with
  | '\x08' => ['\\', 'b']
  | '\t' => ['\\', 't']
  | '\n' => if several then ['\n'] else ['\\', 'n']
  | '\x0c' => ['\\', 'f']
  | '\r' => ['\\', 'r']
  | '\\' => ['\\', '\\']
  | c => if isPlain c then [c] else '\\' :: 'u' :: fourDigits c.toNat

/-- The content of a text between quotation marks, given how many of them stand just before. Between
three of them, two may stand in a row. -/
def content (several : Bool) : (row : Nat) → List Char → List Char
  | _, [] => []
  | row, c :: rest =>
    if c = '"' then
      if several && row < 2 then '"' :: content several (row + 1) rest
      else '\\' :: '"' :: content several 0 rest
    else escaped several c ++ content several 0 rest

/-- Write a text. A line break right behind three opening marks does not count, so one is put there
if the text has any. -/
def write (text : List Char) : List Char :=
  let start := if text.contains '\n' then ['\n'] else []
  let quotes := List.replicate 3 '"'
  let apostrophes := List.replicate 3 '\''
  match form text with
  | .quoted => '"' :: content false 0 text ++ ['"']
  | .literal => '\'' :: text ++ ['\'']
  | .quotedLines => quotes ++ start ++ content true 0 text ++ quotes
  | .literalLines => apostrophes ++ start ++ text ++ apostrophes

end Patchbay.Toml.Text
