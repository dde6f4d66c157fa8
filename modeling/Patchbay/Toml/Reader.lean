import Patchbay.Toml.Scalar
import Patchbay.Toml.Text

/-!
# Reading a TOML document

A document is read line by line: a header, a key with its value, or nothing, and a comment behind
any of these. A value may take several lines. There is no result if any line is not well formed, or
if a key or a table is defined twice.
-/

namespace Patchbay.Toml

/-- How deeply arrays and tables in one line may nest, and how many parts a dotted key may have. -/
def depthLimit : Nat := 79

/-- Decide whether a character is a blank. -/
def isBlank (c : Char) : Bool := c == ' ' || c == '\t'

/-- Decide whether a character can stand in a key without marks. -/
def isKeyChar (c : Char) : Bool := c.isAlphanum || c == '_' || c == '-'

/-- Skip blanks, line breaks and comments. The flag tells whether this starts in a comment. -/
def skipLines? : Bool → List Char → Option (List Char)
  | _, '\n' :: rest => skipLines? false rest
  | _, '\r' :: '\n' :: rest => skipLines? false rest
  | false, '#' :: rest => skipLines? true rest
  | false, c :: rest => if isBlank c then skipLines? false rest else some (c :: rest)
  | false, [] => some []
  | true, c :: rest => if Text.isPlain c then skipLines? true rest else none
  | true, [] => none

/-- Skip the rest of a line, of which there may be nothing but a comment. The flag tells whether
this starts in the comment. -/
def skipLineEnd? : Bool → List Char → Option (List Char)
  | _, [] => some []
  | _, '\n' :: rest => some rest
  | _, '\r' :: '\n' :: rest => some rest
  | false, '#' :: rest => skipLineEnd? true rest
  | false, c :: rest => if isBlank c then skipLineEnd? false rest else none
  | true, c :: rest => if Text.isPlain c then skipLineEnd? true rest else none

/-- Take one part of a key. -/
def takeKeyPart? (text : List Char) : Option (String × List Char) :=
  let plain := text.takeWhile isKeyChar
  if plain.isEmpty then
    (Text.takeLine? text).map fun (part, rest) => (String.ofList part, rest)
  else some (String.ofList plain, text.dropWhile isKeyChar)

/-- Take a key of at most `steps` parts, with the blanks around it. -/
def takeKey? : (steps : Nat) → List Char → Option (List String × List Char)
  | 0, _ => none
  | steps + 1, text => do
    let (part, rest) ← takeKeyPart? (text.dropWhile isBlank)
    match rest.dropWhile isBlank with
    | '.' :: rest =>
      let (parts, rest) ← takeKey? steps rest
      some (part :: parts, rest)
    | rest => some ([part], rest)

mutual

/-- Take a value, in at most `steps` steps and with at most so many levels of nesting. -/
def takeValue? : (steps levels : Nat) → List Char → Option (Node × List Char)
  | 0, _, _ => none
  | steps + 1, levels, text =>
    match text with
    | '"' :: _ | '\'' :: _ =>
      (Text.take? text).map fun (content, rest) => (.text (String.ofList content), rest)
    | '[' :: rest =>
      match levels with
      | 0 => none
      | levels + 1 =>
        (takeItems? steps levels rest).map fun (items, rest) => (.array items, rest)
    | '\x7b' :: rest =>
      match levels with
      | 0 => none
      | levels + 1 =>
        match rest.dropWhile isBlank with
        | '\x7d' :: rest => some (.inline [], rest)
        | rest =>
          (takeEntries? steps levels [] rest).map fun (entries, rest) => (.inline entries, rest)
    | _ => Scalar.take? text

/-- Take the items of an array and its closing bracket. -/
def takeItems? : (steps levels : Nat) → List Char → Option (List Node × List Char)
  | 0, _, _ => none
  | steps + 1, levels, text => do
    let text ← skipLines? false text
    match text with
    | ']' :: rest => some ([], rest)
    | _ =>
      let (item, rest) ← takeValue? steps levels text
      let rest ← skipLines? false rest
      match rest with
      | ',' :: rest =>
        let (items, rest) ← takeItems? steps levels rest
        some (item :: items, rest)
      | ']' :: rest => some ([item], rest)
      | _ => none

/-- Take the entries of a table in one line and its closing brace. -/
def takeEntries? :
    (steps levels : Nat) → Entries → List Char → Option (Entries × List Char)
  | 0, _, _, _ => none
  | steps + 1, levels, entries, text => do
    let (key, rest) ← takeKey? depthLimit text
    let '=' :: rest := rest | none
    let (value, rest) ← takeValue? steps levels (rest.dropWhile isBlank)
    let entries ← store key value .defined entries
    match rest.dropWhile isBlank with
    | ',' :: rest => takeEntries? steps levels entries rest
    | '\x7d' :: rest => some (entries, rest)
    | _ => none

end

/-- Read one line, given the header it stands under. The result is the header that the next line
stands under, the document, and the text behind the line. -/
def readLine? (header : List String) (document : Entries) (text : List Char) :
    Option (List String × Entries × List Char) := do
  match text.dropWhile isBlank with
  | '[' :: '[' :: rest =>
    let (key, rest) ← takeKey? depthLimit rest
    let ']' :: ']' :: rest := rest | none
    some (key, ← openNext key document, ← skipLineEnd? false rest)
  | '[' :: rest =>
    let (key, rest) ← takeKey? depthLimit rest
    let ']' :: rest := rest | none
    some (key, ← openTable key document, ← skipLineEnd? false rest)
  | c :: rest =>
    if c = '#' || c = '\n' || c = '\r' then
      some (header, document, ← skipLineEnd? false (c :: rest))
    else
      let (key, rest) ← takeKey? depthLimit (c :: rest)
      let '=' :: rest := rest | none
      let text := rest.dropWhile isBlank
      let (value, rest) ← takeValue? (2 * text.length + 2) depthLimit text
      let document ← descend .implied (store key value) header .defined document
      some (header, document, ← skipLineEnd? false rest)
  | [] => some (header, document, [])

/-- Read at most `steps` lines. -/
def readLines? : (steps : Nat) → List String → Entries → List Char → Option Entries
  | _, _, document, [] => some document
  | 0, _, _, _ => none
  | steps + 1, header, document, text => do
    let (header, document, rest) ← readLine? header document text
    readLines? steps header document rest

/-- The mark that may stand at the start of a file. -/
def byteOrderMark : Char := '\ufeff'

/-- Read a document. -/
def read? (text : List Char) : Option Entries :=
  let text := match text with
    | c :: rest => if c = byteOrderMark then rest else c :: rest
    | [] => []
  readLines? (text.length + 1) [] [] text

end Patchbay.Toml
