import Patchbay.Beacon.Registry
import Patchbay.Atom.Basic

/-!
# Broadcasts

A broadcast delivers a message to the castaways that a beacon has when it begins, in the order of
binding. A castaway may react by binding or unbinding castaways on the beacon that reached it, or by
a broadcast of its own, which is finished before the next castaway is reached.

Reactions may go round in circles, so a run has a limit on how deeply broadcasts nest, and one that
exceeds it has no result.
-/

namespace Patchbay

/-- What a castaway does when it is reached. -/
inductive Response (C : Type) where
  | bind (castaway : C)
  | unbind (castaway : C)
  | broadcast (name : String) (atoms : List Atom)
deriving Inhabited

/-- A message that reached a castaway. -/
structure Heard (C : Type) where
  castaway : C
  beacon : String
  atoms : List Atom
deriving Inhabited

/-- A registry with the state that decides about responses, and all that was heard so far. -/
structure Airwaves (C S : Type) where
  registry : Registry C
  state : S
  heard : List (Heard C) := []

/-- The responses of a castaway to a message, and the state afterwards. -/
abbrev Responder (C S : Type) := S → C → List Atom → S × List (Response C)

namespace Airwaves

variable {C S : Type} [DecidableEq C]

mutual

/-- Deliver a message of one beacon to a list of castaways. -/
def deliver (respond : Responder C S) (depth number : Nat) (atoms : List Atom) :
    List C → Airwaves C S → Option (Airwaves C S)
  | [], air => some air
  | castaway :: rest, air =>
    match depth with
    | 0 => none
    | depth + 1 =>
      let (state, responses) := respond air.state castaway atoms
      let reached : Airwaves C S :=
        { air with
          state
          heard := air.heard ++ [⟨castaway, air.registry.nameOf number, atoms⟩] }
      (carryOut respond depth number responses reached).bind fun air =>
        deliver respond (depth + 1) number atoms rest air
termination_by castaways => (depth, 0, castaways.length)

/-- Carry out the responses to a message of one beacon. -/
def carryOut (respond : Responder C S) (depth number : Nat) :
    List (Response C) → Airwaves C S → Option (Airwaves C S)
  | [], air => some air
  | .bind castaway :: rest, air =>
    carryOut respond depth number rest { air with registry := air.registry.bind number castaway }
  | .unbind castaway :: rest, air =>
    carryOut respond depth number rest { air with registry := air.registry.unbind number castaway }
  | .broadcast name atoms :: rest, air =>
    let (registry, other) := air.registry.create name
    (transmit respond depth other atoms { air with registry }).bind
      fun (air, _) => carryOut respond depth number rest air
termination_by responses => (depth, 2, responses.length)

/-- Broadcast a message on a beacon; the count is that of the castaways it has. -/
def transmit (respond : Responder C S) (depth number : Nat) (atoms : List Atom)
    (air : Airwaves C S) : Option (Airwaves C S × Nat) :=
  let castaways := air.registry.castaways number
  (deliver respond depth number atoms castaways air).map fun air => (air, castaways.length)
termination_by (depth, 1, 0)

end

/-- How deeply broadcasts may nest. -/
def depthLimit : Nat := 4096

/-- Broadcast a message on a beacon, with responses as deep as the limit allows. -/
def broadcast (respond : Responder C S) (air : Airwaves C S) (number : Nat) (atoms : List Atom) :
    Option (Airwaves C S × Nat) :=
  transmit respond depthLimit number atoms air

end Airwaves

end Patchbay
