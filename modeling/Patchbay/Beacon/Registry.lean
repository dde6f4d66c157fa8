import Patchbay.Keyed

/-!
# Beacons

Named channels without wires. A registry finds a beacon by its name and makes it on first use; a
beacon lists its castaways in the order in which they were bound, each once. Clearing the registry
frees the names, but who still holds a beacon can go on using it, so beacons are told apart by
number and not by name. A castaway that is gone leaves every beacon.
-/

namespace Patchbay

/-- A named channel with its castaways in the order of binding. -/
structure Beacon (C : Type) where
  name : String
  castaways : List C := []
deriving Repr, Inhabited

/-- All beacons ever made, the number of each being its place, and the names in use. -/
structure Registry (C : Type) where
  beacons : List (Beacon C) := []
  names : Keyed Nat := []
deriving Repr, Inhabited

namespace Registry

variable {C : Type}

/-- The number of the beacon that has a name. -/
def find? (registry : Registry C) (name : String) : Option Nat := registry.names.get? name

/-- The beacon of a name, made if there is none. -/
def create (registry : Registry C) (name : String) : Registry C × Nat :=
  match registry.find? name with
  | some number => (registry, number)
  | none =>
    let number := registry.beacons.length
    (⟨registry.beacons ++ [{ name }], registry.names.set name number⟩, number)

/-- The castaways of a beacon in the order of binding. -/
def castaways (registry : Registry C) (number : Nat) : List C :=
  ((registry.beacons[number]?).map Beacon.castaways).getD []

/-- The name of a beacon. -/
def nameOf (registry : Registry C) (number : Nat) : String :=
  ((registry.beacons[number]?).map Beacon.name).getD ""

/-- Change the castaways of one beacon. -/
def update (registry : Registry C) (number : Nat) (change : List C → List C) : Registry C :=
  { registry with
    beacons := registry.beacons.modify number fun beacon =>
      { beacon with castaways := change beacon.castaways } }

/-- Bind a castaway to a beacon; one that is bound keeps its place. -/
def bind [DecidableEq C] (registry : Registry C) (number : Nat) (castaway : C) : Registry C :=
  registry.update number fun castaways =>
    if castaway ∈ castaways then castaways else castaways ++ [castaway]

/-- Unbind a castaway from a beacon. -/
def unbind [DecidableEq C] (registry : Registry C) (number : Nat) (castaway : C) : Registry C :=
  registry.update number fun castaways => castaways.filter (· ≠ castaway)

/-- Unbind the castaways that are gone from every beacon. -/
def forget (registry : Registry C) (gone : C → Bool) : Registry C :=
  { registry with
    beacons := registry.beacons.map fun beacon =>
      { beacon with castaways := beacon.castaways.filter fun castaway => !gone castaway } }

/-- Free all names. -/
def clear (registry : Registry C) : Registry C := { registry with names := [] }

/-- The number of names in use. -/
def size (registry : Registry C) : Nat := registry.names.length

end Registry

end Patchbay
