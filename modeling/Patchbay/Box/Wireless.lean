import Patchbay.Box.Reaction

/-!
# Wireless boxes

A speaker broadcasts its messages on a beacon, and a hearer sends out what its beacon broadcasts.
The hearer is bound to the beacon when it is made and is a castaway of it as long as it is in its
patch.
-/

namespace Patchbay

/-- A wireless box. -/
inductive Wireless where
  | speaker (beacon : Nat)
  | hearer
deriving DecidableEq, Repr, Inhabited

namespace Wireless

/-- The beacon named by the first argument. -/
def beaconName (site : Site) : Except String String :=
  match site.argument 0 with
  | .symbol text => if text.isEmpty then .error "expects a beacon name" else .ok text
  | _ => .error "expects a beacon name"

/-- Plan a speaker. -/
def planSpeaker (site : Site) : Except String (Plan Wireless) :=
  (beaconName site).map fun name =>
    { inlets := [.control "message to broadcast"], service := .speak name, state := .speaker }

/-- Plan a hearer. -/
def planHearer (site : Site) : Except String (Plan Wireless) :=
  (beaconName site).map fun name =>
    { outlets := [.control "received message"], service := .listen name, state := fun _ => .hearer }

/-- React to a message. -/
def receive (here : Surroundings) (atoms : List Atom) (wireless : Wireless) : Reaction Wireless :=
  match wireless with
  | .speaker beacon =>
    { state := wireless, sheet := here.sheet, effects := [.broadcast beacon atoms] }
  | .hearer => .ignore wireless here.sheet

end Wireless

end Patchbay
