import Patchbay.Studio.Time

/-!
# Racks

A studio whose patches stand in numbered slots. A patch is made, empty, when its slot is first
used. A slot whose patch was dropped gets another patch when it is used again. Handles to boxes are
kept under names, and outlive the boxes.
-/

namespace Patchbay

/-- A studio with the patches in its slots, and handles under names. -/
structure Rack where
  studio : Studio := {}
  slots : List (Nat × Nat) := []
  handles : Keyed Handle := []
deriving Inhabited

namespace Rack

/-- The number of the patch in a slot, which is made if there is none. -/
def patch (rack : Rack) (slot : Nat) : Rack × Nat :=
  match rack.slots.find? fun entry => entry.1 == slot with
  | some (_, number) => (rack, number)
  | none =>
    let (studio, number) := rack.studio.addPatch
    ({ rack with studio, slots := (slot, number) :: rack.slots }, number)

/-- Drop the patch in a slot. -/
def drop (rack : Rack) (slot : Nat) : Rack :=
  let (rack, number) := rack.patch slot
  { rack with
    studio := rack.studio.dropPatch number
    slots := rack.slots.filter fun entry => entry.1 != slot }

/-- Keep a handle to a box under a name, if the box is there. -/
def keep (rack : Rack) (name : String) (handle : Handle) : Rack × Bool :=
  if rack.studio.isAlive handle then
    ({ rack with handles := rack.handles.set name handle }, true)
  else (rack, false)

/-- The handle kept under a name; without one, a handle to nothing. -/
def handle (rack : Rack) (name : String) : Handle :=
  (rack.handles.get? name).getD ⟨rack.studio.nextPatch, 0⟩

/-- Take the lines that were printed since the last time. -/
def takePrinted (rack : Rack) : Rack × List String :=
  ({ rack with studio := { rack.studio with printed := [] } }, rack.studio.printed)

/-- Take what listeners heard since the last time. -/
def takeHeard (rack : Rack) : Rack × List (String × List Atom) :=
  ({ rack with studio := { rack.studio with heard := [] } }, rack.studio.heard)

/-- Forget what happened so far. -/
def forgetEvents (rack : Rack) : Rack :=
  { rack with studio := { rack.studio with events := [] } }

end Rack

end Patchbay
