import Patchbay.Atom.Basic
import Patchbay.Text.Quoted

/-!
# Dicos as text

The notation in which dicos are saved. A dico is written as a block of lines between braces, one
entry a line, and an entry that is nothing but one filled dico becomes a block of its own. Dicos
inside lists stay on the line of their entry. A list of several atoms, of none, or of a single
vector is written in brackets; a list of any other single atom is written as that atom.
-/

namespace Patchbay.Notation

open Text

/-- The two brackets around a list, with a blank on the inside unless it is empty. -/
def enclose (left right : Char) (items : List (List Char)) : List Char :=
  if items.isEmpty then [left, right]
  else left :: ' ' :: ", ".toList.intercalate items ++ [' ', right]

/-- The value of an entry, given its atoms and their texts: the atom itself if there is one and it
is no vector, a list in brackets otherwise. -/
def spread : List Atom → List (List Char) → List Char
  | [.vector _], items => enclose '[' ']' items
  | [_], [item] => item
  | _, items => enclose '[' ']' items

mutual

/-- An atom on one line. -/
def value : Atom → List Char
  | .undefined => "null".toList
  | .bool true => "true".toList
  | .bool false => "false".toList
  | .long n => Numeral.int n.toInt
  | .double x _ => Numeral.atomDouble x
  | .symbol text => quote lineCode text.toList
  | .vector atoms => enclose '[' ']' (values atoms)
  | .dico entries _ => enclose '\x7b' '\x7d' (fields entries)

/-- The texts of several atoms. -/
def values : List Atom → List (List Char)
  | [] => []
  | atom :: rest => value atom :: values rest

/-- The texts of the entries of a dico on one line. -/
def fields : List (String × List Atom) → List (List Char)
  | [] => []
  | (key, atoms) :: rest =>
    (quote lineCode key.toList ++ " : ".toList ++ spread atoms (values atoms)) :: fields rest

end

/-- Four blanks for each level of nesting. -/
def indent (depth : Nat) : List Char := List.replicate (4 * depth) ' '

/-- The lines of a dico's entries at a level of nesting; all but the last entry end in a comma. -/
def lines (depth : Nat) : List (String × List Atom) → List (List Char)
  | [] => []
  | (key, atoms) :: rest =>
    let comma := if rest.isEmpty then [] else [',']
    let front := indent depth ++ quote lineCode key.toList ++ " : ".toList
    (match atoms with
      | [.dico (entry :: entries) _] =>
        [front ++ ['\x7b']] ++ lines (depth + 1) (entry :: entries) ++
          [indent depth ++ '\x7d' :: comma]
      | _ => [front ++ spread atoms (values atoms) ++ comma]) ++
    lines depth rest

/-- All lines of a dico, the braces included. -/
def block (dico : Dico) : List (List Char) := [['\x7b']] ++ lines 1 dico ++ [['\x7d']]

/-- The text of a dico, every line with its newline. -/
def text (dico : Dico) : List Char := (block dico).flatMap (· ++ ['\n'])

end Patchbay.Notation
