import Patchbay.Keyed
import Patchbay.Number.Notation

/-!
# Atoms

The values that messages and attributes carry. Asking an atom for a value of another kind never
fails: it gives the closest value of that kind, or that kind's zero. Booleans, integers and doubles
are the numbers, and numbers of different kinds are compared as doubles.

Doubles have one NaN only. The sign with which a NaN was written stands beside it, and nothing but
the sound files made from it show it.

A dico maps names to lists of atoms and is itself an atom, so both nest. A dico in an atom has an
identity, which copies of the atom share. It says nothing about what the dico holds; it only tells
whether something was replaced by a copy of itself.
-/

namespace Patchbay

/-- A dynamically typed value. -/
inductive Atom where
  | undefined
  | bool (value : Bool)
  | long (value : Int64)
  | double (value : Float) (minus : Bool := false)
  | symbol (text : String)
  | vector (items : List Atom)
  | dico (entries : List (String × List Atom)) (identity : Nat := 0)
deriving Inhabited

/-- Lists of atoms under names, in insertion order. -/
abbrev Dico := Keyed (List Atom)

namespace Atom

/-- The name of the atom's kind. -/
def kindName : Atom → String
  | undefined => "undefined"
  | bool _ => "bool"
  | long _ => "long"
  | double _ _ => "double"
  | symbol _ => "symbol"
  | vector _ => "vector"
  | dico _ _ => "dico"

/-- Decide whether the atom is a number; truth values count as numbers. -/
def isNumber : Atom → Bool
  | bool _ | long _ | double _ _ => true
  | _ => false

/-- Decide whether the atom is a symbol. -/
def isSymbol : Atom → Bool
  | symbol _ => true
  | _ => false

/-- Truth: a number other than zero. -/
def toBool : Atom → Bool
  | bool value => value
  | long value => value != 0
  | double value _ => value != 0.0
  | _ => false

/-- The integer value; doubles are cut toward zero and stop at the ends of the range. -/
def toLong : Atom → Int64
  | bool value => if value then 1 else 0
  | long value => value
  | double value _ => Long.ofDouble Binary.truncate value
  | _ => 0

/-- The floating-point value. -/
def toDouble : Atom → Float
  | bool value => if value then 1.0 else 0.0
  | long value => Long.toDouble value
  | double value _ => value
  | _ => 0.0

/-- A double with the sign before its text, which matters to a NaN alone. -/
def signed (minus : Bool) (value : Float) : Atom := double value (minus && value.isNaN)

/-- Decide whether the atom is a NaN with a minus sign. -/
def isMinusNaN : Atom → Bool
  | double value minus => minus && value.isNaN
  | _ => false

/-- The text of a symbol; other atoms have none. -/
def toSymbol : Atom → String
  | symbol text => text
  | _ => ""

/-- The items of a vector; other atoms have none. -/
def toVector : Atom → List Atom
  | vector items => items
  | _ => []

/-- The dico that the atom holds. -/
def toDico? : Atom → Option Dico
  | dico entries _ => some entries
  | _ => none

/-- Add an item to the end of a vector. -/
def push? : Atom → Atom → Option Atom
  | vector items, item => some (vector (items ++ [item]))
  | _, _ => none

mutual

/-- Equality of atoms: by value within a kind, as doubles between numbers of different kinds.
Dicos are equal when they hold equal lists under the same names, in whatever order. -/
def same : Atom → Atom → Bool
  | undefined, undefined => true
  | bool a, bool b => a == b
  | long a, long b => a == b
  | symbol a, symbol b => a == b
  | vector a, vector b => sameList a b
  | dico a _, dico b _ => a.length == b.length && sameEntries a b
  | a, b => a.isNumber && b.isNumber && a.toDouble == b.toDouble

/-- Equality of lists, item by item. -/
def sameList : List Atom → List Atom → Bool
  | [], [] => true
  | a :: as, b :: bs => same a b && sameList as bs
  | _, _ => false

/-- Decide whether every entry is found with an equal list in another dico. -/
def sameEntries : List (String × List Atom) → List (String × List Atom) → Bool
  | [], _ => true
  | (key, values) :: rest, other =>
    (match Keyed.get? other key with
      | some found => sameList values found
      | none => false) && sameEntries rest other

end

instance : BEq Atom := ⟨same⟩

/-- Equality of an atom with a copy of itself. Copies share their lists and dicos, so only a bare
NaN differs from its copy. -/
def sameAsCopy : Atom → Bool
  | vector _ | dico _ _ => true
  | atom => same atom atom

end Atom

namespace Dico

/-- The atoms stored under a key; an absent key has none. -/
def get (dico : Dico) (key : String) : List Atom := (dico.get? key).getD []

/-- The first atom stored under a key. -/
def getAtom (dico : Dico) (key : String) : Atom := (dico.get key).head?.getD .undefined

/-- The dico stored as the first atom under a key. -/
def getDico? (dico : Dico) (key : String) : Option Dico :=
  (dico.get key).head?.bind Atom.toDico?

/-- Store a single atom under a key. -/
def setAtom (dico : Dico) (key : String) (atom : Atom) : Dico := dico.set key [atom]

/-- Add an atom to the end of the list stored under a key. -/
def append (dico : Dico) (key : String) (atom : Atom) : Dico :=
  dico.set key (dico.get key ++ [atom])

/-- Equality of dicos; the order of keys does not matter. -/
def same (a b : Dico) : Bool := a.length == b.length && Atom.sameEntries a b

end Dico

end Patchbay
