import Patchbay.Atom.Words

/-!
# Attributes

A named, typed property of a box. Its kind decides which atoms fit and in what shape they are
stored; its limits are applied to every number that comes in. `Attribute.conform` is the only way
in which atoms become a stored value, and building an attribute conforms its default too.
-/

namespace Patchbay

/-- How an attribute behaves: hidden from inspectors, closed to setting, left out of saved files,
changed without telling anyone. -/
structure Flags where
  invisible : Bool := false
  disabled : Bool := false
  unsaved : Bool := false
  silent : Bool := false
deriving DecidableEq, Repr, Inhabited

namespace Flags

/-- The flags set in either of two sets. -/
def union (a b : Flags) : Flags :=
  ⟨a.invisible || b.invisible, a.disabled || b.disabled, a.unsaved || b.unsaved,
    a.silent || b.silent⟩

/-- The flags of the first set that are not in the second. -/
def difference (a b : Flags) : Flags :=
  ⟨a.invisible && !b.invisible, a.disabled && !b.disabled, a.unsaved && !b.unsaved,
    a.silent && !b.silent⟩

/-- Decide whether every flag of the second set is in the first. -/
def contains (a b : Flags) : Bool := a.union b == a

/-- The flags as the bits of a number, the first flag lowest. -/
def bits (flags : Flags) : Nat :=
  flags.invisible.toNat + 2 * flags.disabled.toNat + 4 * flags.unsaved.toNat +
    8 * flags.silent.toNat

/-- The flags that the lowest four bits of a number stand for. -/
def ofBits (bits : Nat) : Flags :=
  ⟨bits.testBit 0, bits.testBit 1, bits.testBit 2, bits.testBit 3⟩

/-- Every set of flags is read back from its bits. -/
theorem ofBits_bits (flags : Flags) : ofBits flags.bits = flags := by
  obtain ⟨a, b, c, d⟩ := flags
  revert a b c d
  decide

end Flags

/-- What an attribute holds. An enumeration stores the index of one of its items; points, sizes,
rectangles and colors store their components as doubles. -/
inductive Kind where
  | bool
  | long
  | double
  | symbol
  | enum (items : List String)
  | point
  | size
  | rect
  | color
  | list
deriving DecidableEq, Repr, Inhabited

namespace Kind

/-- The short name of the kind. -/
def name : Kind → String
  | bool => "bool"
  | long => "long"
  | double => "double"
  | symbol => "symbol"
  | enum _ => "enum"
  | point => "point"
  | size => "size"
  | rect => "rect"
  | color => "color"
  | list => "list"

/-- The number of components of a geometric value. -/
def components : Kind → Nat
  | point | size => 2
  | rect | color => 4
  | _ => 1

/-- The value that an attribute holds before anything is known about it. -/
def zero : Kind → List Atom
  | bool => [.bool false]
  | long | enum _ => [.long 0]
  | double => [.double 0.0]
  | symbol => [.symbol ""]
  | point | size => List.replicate 2 (.double 0.0)
  | rect => List.replicate 4 (.double 0.0)
  | color => [.double 0.0, .double 0.0, .double 0.0, .double 1.0]
  | list => []

end Kind

/-- A typed, named property with its current and its default value. -/
structure Attribute where
  name : String
  label : String
  category : String := "Default"
  order : Int := 0
  kind : Kind
  least? : Option Float := none
  greatest? : Option Float := none
  ratio? : Option Float := none
  value : List Atom
  default : List Atom
  frozen? : Option (List Atom) := none
  flags : Flags := {}
deriving Inhabited

namespace Attribute

/-- Bring a number up to a lower limit. Only a number above the limit stays as it is: NaN becomes
the limit, and a zero takes the sign of a limit that is zero. A limit that is NaN does nothing. -/
def raise (limit x : Float) : Float := if limit.isNaN || x > limit then x else limit

/-- Bring a number down to an upper limit, in the same way. -/
def lower (limit x : Float) : Float := if limit.isNaN || x < limit then x else limit

/-- Apply the attribute's limits, the lower one first. -/
def clamp (attr : Attribute) (x : Float) : Float :=
  let raised := match attr.least? with
    | some limit => raise limit x
    | none => x
  match attr.greatest? with
  | some limit => lower limit raised
  | none => raised

/-- Apply the attribute's limits to an integer. A limit that is no whole number is rounded toward
the inside of the range. -/
def clampLong (attr : Attribute) (n : Int64) : Int64 :=
  let raised := match attr.least? with
    | some limit => if Long.toDouble n < limit then Long.ofDouble Binary.ceil limit else n
    | none => n
  match attr.greatest? with
  | some limit =>
    if Long.toDouble raised > limit then Long.ofDouble Binary.floor limit else raised
  | none => raised

/-- A color component, between zero and one; NaN stays. -/
def clampUnit (x : Float) : Float :=
  let raised := if x < 0.0 then 0.0 else x
  if raised > 1.0 then 1.0 else raised

/-- The numbers at the front of a list of atoms, at most `count` of them. -/
def leadingNumbers (count : Nat) (atoms : List Atom) : List Float :=
  ((atoms.takeWhile Atom.isNumber).take count).map Atom.toDouble

/-- The components of a geometric value within the limits; missing ones come from the current
value. There must be at least one. -/
def components? (attr : Attribute) (atoms : List Atom) : Option (List Float) :=
  let count := attr.kind.components
  let given := leadingNumbers count atoms
  if given.isEmpty then none
  else
    some <| (List.range count).map fun i =>
      attr.clamp (given[i]?.getD ((attr.value[i]?.map Atom.toDouble).getD 0.0))

/-- The index that an atom selects in an enumeration: that of a named item, or a number brought
into range. -/
def itemIndex? (items : List String) : Atom → Option Nat
  | .symbol text => if items.contains text then some (items.idxOf text) else none
  | atom =>
    if atom.isNumber && !items.isEmpty then some (min atom.toLong.toInt.toNat (items.length - 1))
    else none

/-- Bring atoms into the shape of the attribute's kind and within its limits. Atoms that cannot
express a value of the kind give nothing. -/
def conform (attr : Attribute) (atoms : List Atom) : Option (List Atom) :=
  match attr.kind with
  | .list => some atoms
  | .bool => atoms.head?.map fun atom => [.bool atom.toBool]
  | .long => (atoms.head?.filter Atom.isNumber).map fun atom => [.long (attr.clampLong atom.toLong)]
  | .double =>
    (atoms.head?.filter Atom.isNumber).map fun atom => [.double (attr.clamp atom.toDouble)]
  | .symbol =>
    atoms.head?.map fun
      | .symbol text => [.symbol text]
      | atom => [.symbol (String.ofList (Words.word atom))]
  | .enum items =>
    (atoms.head?.bind (itemIndex? items)).map fun index => [.long (Int64.ofNat index)]
  | .point | .rect => (attr.components? atoms).map (·.map (.double ·))
  | .size =>
    (attr.components? atoms).map fun sides =>
      match attr.ratio?, sides with
      | some ratio, [width, _] => [.double width, .double (attr.clamp (width * ratio))]
      | _, _ => sides.map (.double ·)
  | .color =>
    match leadingNumbers 4 atoms with
    | red :: green :: blue :: rest =>
      some ([red, green, blue, rest.head?.getD 1.0].map fun x => .double (clampUnit x))
    | _ => none

/-- An attribute whose value is its conformed default. -/
def declare (name : String) (kind : Kind) (default : List Atom) : Attribute :=
  let blank : Attribute := { name, label := name, kind, value := kind.zero, default := [] }
  let conformed := (blank.conform default).getD kind.zero
  { blank with default := conformed, value := conformed }

/-- Conform the default again after the limits have changed, and go back to it. -/
def redefault (attr : Attribute) : Attribute :=
  let default := (attr.conform attr.default).getD attr.default
  { attr with default, value := default }

/-- Set the label that people read. -/
def withLabel (attr : Attribute) (label : String) : Attribute := { attr with label }

/-- Set the inspector category. -/
def withCategory (attr : Attribute) (category : String) : Attribute :=
  { attr with category }

/-- Set the place within the category. -/
def withOrder (attr : Attribute) (order : Int) : Attribute := { attr with order }

/-- Set both limits. -/
def withRange (attr : Attribute) (least greatest : Float) : Attribute :=
  redefault { attr with least? := some least, greatest? := some greatest }

/-- Set the lower limit. -/
def withMin (attr : Attribute) (least : Float) : Attribute :=
  redefault { attr with least? := some least }

/-- Tie the height of a size to its width; only a positive ratio does so. -/
def withRatio (attr : Attribute) (ratio : Float) : Attribute :=
  redefault { attr with ratio? := if ratio > 0.0 then some ratio else none }

/-- Set the flags. -/
def withFlags (attr : Attribute) (flags : Flags) : Attribute := { attr with flags }

/-- The item that an enumeration holds. -/
def item? (attr : Attribute) : Option String :=
  match attr.kind with
  | .enum items =>
    attr.value.head?.bind fun atom =>
      if 0 ≤ atom.toLong.toInt then items[atom.toLong.toInt.toNat]? else none
  | _ => none

end Attribute

end Patchbay
