import Patchbay.Dico.Notation
import Patchbay.Text.Blank

/-!
# Reading dicos

The reader goes line by line and is lenient: a line that makes no sense is skipped, and a block
that is never closed keeps what it holds. Outside of any block a line may hold a whole dico. The
entries of every outermost block are stored over those read before.
-/

namespace Patchbay.Notation

open Text

/-- The character that a letter stands for after a backslash. -/
def unescape (letter : Char) : Char :=
  if letter = 'n' then '\n' else if letter = 't' then '\t' else letter

/-- Read the rest of a quoted text, up to and past its closing quote. -/
def stringRest? : List Char → Option (List Char × List Char)
  | [] => none
  | '"' :: rest => some ([], rest)
  | '\\' :: letter :: rest =>
    (stringRest? rest).map fun (text, rest) => (unescape letter :: text, rest)
  | c :: rest => (stringRest? rest).map fun (text, rest) => (c :: text, rest)

/-- Read a quoted text after optional blanks. -/
def string? (text : List Char) : Option (String × List Char) :=
  match trimFront text with
  | '"' :: rest => (stringRest? rest).map fun (text, rest) => (String.ofList text, rest)
  | _ => none

/-- Read one given character after optional blanks. -/
def mark? (c : Char) (text : List Char) : Option (List Char) :=
  match trimFront text with
  | d :: rest => if d = c then some rest else none
  | [] => none

/-- The number that a bare word stands for. A word with a point, an exponent or a special name is a
double; other words are integers where they fit. -/
def number? (word : List Char) : Option Atom :=
  let floating := word.any (fun c => c == '.' || c == 'e' || c == 'E') ||
    "inf".toList.isSuffixOf word || word == "NaN".toList
  match (if floating then none else Numeral.readLong? word) with
  | some n => some (.long n)
  | none => (Numeral.readDouble? word).map (.signed (word.head? == some '-'))

/-- The atom that a bare word stands for. -/
def word? (word : List Char) : Option Atom :=
  if word = "true".toList then some (.bool true)
  else if word = "false".toList then some (.bool false)
  else if word = "null".toList then some .undefined
  else number? word

/-- Decide whether a character belongs to a bare word. -/
def inWord (c : Char) : Bool := !isBlank c && c != ',' && c != ']' && c != '\x7d'

mutual

/-- Read one atom after optional blanks. -/
def value? : Nat → List Char → Option (Atom × List Char)
  | 0, _ => none
  | fuel + 1, text =>
    match trimFront text with
    | '"' :: rest => (stringRest? rest).map fun (text, rest) => (.symbol (String.ofList text), rest)
    | '[' :: rest => (list? fuel rest).map fun (atoms, rest) => (.vector atoms, rest)
    | '\x7b' :: rest => (object? fuel rest).map fun (entries, rest) => (.dico entries, rest)
    | text => (word? (text.takeWhile inWord)).map fun atom => (atom, text.dropWhile inWord)

/-- Read a list up to and past its right bracket. -/
def list? : Nat → List Char → Option (List Atom × List Char)
  | 0, _ => none
  | fuel + 1, text =>
    match mark? ']' text with
    | some rest => some ([], rest)
    | none => items? fuel text

/-- Read at least one atom and the right bracket after the last. -/
def items? : Nat → List Char → Option (List Atom × List Char)
  | 0, _ => none
  | fuel + 1, text =>
    (value? fuel text).bind fun (atom, rest) =>
      match trimFront rest with
      | ',' :: rest => (items? fuel rest).map fun (atoms, rest) => (atom :: atoms, rest)
      | ']' :: rest => some ([atom], rest)
      | _ => none

/-- Read a dico up to and past its right brace. -/
def object? : Nat → List Char → Option (Dico × List Char)
  | 0, _ => none
  | fuel + 1, text =>
    match mark? '\x7d' text with
    | some rest => some ([], rest)
    | none => (fields? fuel text).map fun (entries, rest) => (Keyed.ofList entries, rest)

/-- Read at least one entry and the right brace after the last. -/
def fields? : Nat → List Char → Option (List (String × List Atom) × List Char)
  | 0, _ => none
  | fuel + 1, text =>
    (string? text).bind fun (key, rest) =>
    (mark? ':' rest).bind fun rest =>
    (atoms? fuel rest).bind fun (atoms, rest) =>
      match trimFront rest with
      | ',' :: rest =>
        (fields? fuel rest).map fun (entries, rest) => ((key, atoms) :: entries, rest)
      | '\x7d' :: rest => some ([(key, atoms)], rest)
      | _ => none

/-- Read the atoms of an entry: those of a list, or a single one. -/
def atoms? : Nat → List Char → Option (List Atom × List Char)
  | 0, _ => none
  | fuel + 1, text =>
    match mark? '[' text with
    | some rest => list? fuel rest
    | none => (value? fuel text).map fun (atom, rest) => ([atom], rest)

end

/-- Enough steps to read a text: of any four steps in a row one takes a character. -/
def steps (text : List Char) : Nat := 4 * text.length + 4

/-- What a line says inside a block. -/
inductive Line where
  | opens (key : String)
  | entry (key : String) (atoms : List Atom)
deriving Inhabited

/-- Read the entry on a line: it opens a block, or gives the atoms of its key. -/
def entry? (text : List Char) : Option Line :=
  (string? text).bind fun (key, rest) =>
  (mark? ':' rest).bind fun rest =>
    if trim rest = ['\x7b'] then some (.opens key)
    else
      (atoms? (steps rest) rest).bind fun (atoms, rest) =>
        if (trimFront rest).isEmpty then some (.entry key atoms) else none

/-- Read a line that holds a whole dico. -/
def inline? (text : List Char) : Option Dico :=
  (value? (steps text) text).bind fun (atom, rest) =>
    if (trimFront rest).isEmpty then atom.toDico? else none

/-- A block being filled: what it holds so far, and the blocks around it, each with the key under
which the block inside it will be stored. -/
structure Block where
  filled : Dico
  around : List (Dico × String)
deriving Inhabited

/-- What has been read: the entries of finished outermost blocks, and the block that is open. -/
structure Progress where
  root : Dico
  open? : Option Block
deriving Inhabited

/-- Close the innermost block. -/
def Progress.close (progress : Progress) : Progress :=
  match progress.open? with
  | none => progress
  | some ⟨filled, []⟩ => ⟨progress.root.merge filled, none⟩
  | some ⟨filled, (outer, key) :: around⟩ =>
    ⟨progress.root, some ⟨outer.setAtom key (.dico filled), around⟩⟩

/-- Take in one line. -/
def Progress.line (progress : Progress) (raw : List Char) : Progress :=
  let line := trim raw
  if line.isEmpty then progress
  else
    match progress.open? with
    | none =>
      if line = ['\x7b'] then ⟨progress.root, some ⟨[], []⟩⟩
      else match inline? (dropTrailing ',' line) with
        | some entries => ⟨progress.root.merge entries, none⟩
        | none => progress
    | some block =>
      if line = ['\x7d'] ∨ line = ['\x7d', ','] then progress.close
      else match entry? (dropTrailing ',' line) with
        | some (.opens key) => ⟨progress.root, some ⟨[], (block.filled, key) :: block.around⟩⟩
        | some (.entry key atoms) =>
          ⟨progress.root, some ⟨block.filled.set key atoms, block.around⟩⟩
        | none => progress

/-- Close the open block with all the blocks around it. -/
def Progress.finish (progress : Progress) : Dico :=
  match progress.open? with
  | none => progress.root
  | some block =>
    progress.root.merge <|
      block.around.foldl (fun filled outer => outer.1.setAtom outer.2 (.dico filled)) block.filled

/-- Read a text into a dico that may already hold entries. -/
def readInto (dico : Dico) (text : List Char) : Dico :=
  ((Text.lines text).foldl Progress.line ⟨dico, none⟩).finish

/-- Read the dico that a text describes. -/
def read (text : List Char) : Dico := readInto [] text

end Patchbay.Notation
