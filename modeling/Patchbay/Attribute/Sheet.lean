import Patchbay.Attribute.Basic

/-!
# Sheets of attributes

The attributes of one box in the order of their declaration, with setting, resetting, freezing and
saving. A value is stored only if it differs from the one that is there, where a NaN counts as
equal to a NaN, so that every change is reported once. Within a dico it does so only if the dico is
a copy of the one that is there.
-/

namespace Patchbay

/-- Attributes by name, in the order of declaration. -/
abbrev Sheet := Keyed Attribute

mutual

/-- Equality of atoms for telling whether a value changed: a NaN matches a NaN, also in vectors and
in copies of one dico. -/
def Atom.unchanged : Atom → Atom → Bool
  | .double x _, .double y _ => x == y || (x.isNaN && y.isNaN)
  | .vector a, .vector b => Atom.unchangedList a b
  | .dico a i, .dico b j =>
    (i == j && Atom.unchangedEntries a b) || Atom.same (.dico a i) (.dico b j)
  | a, b => a == b

/-- Equality of lists for telling whether a value changed. -/
def Atom.unchangedList : List Atom → List Atom → Bool
  | [], [] => true
  | a :: as, b :: bs => Atom.unchanged a b && Atom.unchangedList as bs
  | _, _ => false

/-- Equality of entries in order for telling whether a value changed. -/
def Atom.unchangedEntries : List (String × List Atom) → List (String × List Atom) → Bool
  | [], [] => true
  | (key, values) :: rest, (name, others) :: more =>
    key == name && Atom.unchangedList values others && Atom.unchangedEntries rest more
  | _, _ => false

end

/-- The key under which a saved sheet lists its frozen attributes. -/
def frozenKey : String := "frozen_attributes"

/-- What can happen to an attribute. -/
inductive Change where
  | value
  | behavior
deriving DecidableEq, Repr, Inhabited

namespace Sheet

/-- Declare an attribute in place of any other of the same name. -/
def add (sheet : Sheet) (attr : Attribute) : Sheet := sheet.set attr.name attr

/-- The value of an attribute; an undeclared one has none. -/
def value (sheet : Sheet) (name : String) : List Atom :=
  ((sheet.get? name).map Attribute.value).getD []

/-- Store atoms under a name. The result is nothing if the attribute is undeclared, is closed to
setting (unless `force`), does not take the atoms, or holds their value already. -/
def store? (sheet : Sheet) (name : String) (atoms : List Atom) (force : Bool) : Option Sheet :=
  (sheet.get? name).bind fun attr =>
    if !force && attr.flags.disabled then none
    else
      (attr.conform atoms).bind fun value =>
        if Atom.unchangedList value attr.value then none
        else some (sheet.set name { attr with value })

/-- Decide whether changes of an attribute's value are reported. -/
def reports (sheet : Sheet) (name : String) : Bool :=
  match sheet.get? name with
  | some attr => !attr.flags.silent
  | none => false

/-- Set or clear flags. The result is nothing if that changes none. -/
def setFlags? (sheet : Sheet) (name : String) (flags : Flags) (on : Bool) : Option Sheet :=
  (sheet.get? name).bind fun attr =>
    let updated := if on then attr.flags.union flags else attr.flags.difference flags
    if updated = attr.flags then none
    else some (sheet.set name { attr with flags := updated })

/-- Keep a snapshot of an attribute's value, or forget it. -/
def freeze (sheet : Sheet) (name : String) (on : Bool) : Sheet :=
  sheet.modify name fun attr =>
    { attr with frozen? := if on then some attr.value else none }

/-- The visible attributes by category. Categories stand in the order of their first attribute, the
attributes of each by their place and then by name. -/
def byCategory (sheet : Sheet) : List (String × List Attribute) :=
  let visible := (sheet.map Prod.snd).filter fun attr => !attr.flags.invisible
  let categories := (visible.map Attribute.category).eraseDups
  categories.map fun category =>
    (category, (visible.filter fun attr => attr.category = category).mergeSort
      fun a b => a.order < b.order || (a.order == b.order && a.name ≤ b.name))

/-- The attributes that are saved. -/
def saved (sheet : Sheet) : List Attribute :=
  (sheet.map Prod.snd).filter fun attr => !attr.flags.unsaved

/-- Save the attributes into a dico. A frozen attribute saves its snapshot, and its name is listed
under `frozenKey`. -/
def write (sheet : Sheet) (dico : Dico) : Dico :=
  let entries := sheet.saved.map fun attr =>
    (attr.name, attr.frozen?.getD attr.value)
  let frozen := (sheet.saved.filter fun attr => attr.frozen?.isSome).map
    fun attr => Atom.symbol attr.name
  let written := dico.merge entries
  if frozen.isEmpty then written else written.set frozenKey frozen

/-- The attributes that a dico lists as frozen. -/
def frozenNames (dico : Dico) : List String :=
  ((dico.get frozenKey).filter Atom.isSymbol).map Atom.toSymbol

/-- The attributes that restoring from a dico touches, in order: the declared ones that the dico
has, and among them the unsaved ones only if `all`. -/
def restored (sheet : Sheet) (dico : Dico) (all : Bool) : List String :=
  ((sheet.map Prod.snd).filter fun attr =>
    (all || !attr.flags.unsaved) && dico.has attr.name).map Attribute.name

/-- Restore the attributes that a dico has, with their frozen snapshots. -/
def restore (sheet : Sheet) (dico : Dico) (all : Bool) : Sheet :=
  (sheet.restored dico all).foldl (fun sheet name =>
    let stored := (sheet.store? name (dico.get name) true).getD sheet
    if (frozenNames dico).contains name then stored.freeze name true else stored) sheet

/-- Go back to an attribute's default. The result is nothing if that changes nothing. -/
def reset? (sheet : Sheet) (name : String) : Option Sheet :=
  (sheet.get? name).bind fun attr => sheet.store? name attr.default true

end Sheet

end Patchbay
