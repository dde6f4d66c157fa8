import Patchbay.Beacon.Registry
import Patchbay.Patch.Running

/-!
# The studio

Everything that patches share: the catalog of boxes, the beacons, the timeline and the print-out. A
studio holds any number of patches, told apart by numbers that are never given out twice, so that a
handle to a box stays a handle to that box, or becomes one to nothing.

Listeners stand outside of all patches. They note what they hear on a beacon, and one may be told to
send a message into a patch when it has heard so many.
-/

namespace Patchbay

/-- A reference to a box of a patch, which may be gone. -/
structure Handle where
  patch : Nat
  box : Nat
deriving DecidableEq, Repr, Inhabited

/-- Who is bound to a beacon. -/
inductive Castaway where
  | box (handle : Handle)
  | listener (number : Nat)
deriving DecidableEq, Repr, Inhabited

/-- A message to be sent when so many messages have been heard on a beacon. -/
structure Reply where
  count : Nat
  target : Handle
  inlet : Nat
  atoms : List Atom
deriving Inhabited

/-- Someone outside who listens to a beacon. -/
structure Listener where
  number : Nat
  beacon : String
  reply? : Option Reply
deriving Inhabited

/-- What waits on the timeline. -/
inductive Task where
  | tick (handle : Handle)
  /-- A mark that time is waited for. -/
  | mark
deriving DecidableEq, Repr, Inhabited

/-- Something that happened on the way of a message. -/
inductive Event where
  /-- A message was taken in by a box, at a level of nesting. -/
  | received (handle : Handle) (inlet : Nat) (atoms : List Atom) (level : Nat)
  /-- A message was sent out of an outlet. -/
  | sent (handle : Handle) (outlet : Nat) (atoms : List Atom)
  /-- A box was ticked. -/
  | ticked (handle : Handle)
deriving Inhabited

/-- Patches with all that they share. -/
structure Studio where
  catalog : Catalog := Catalog.standard
  patches : List (Nat × Patch) := []
  nextPatch : Nat := 0
  registry : Registry Castaway := {}
  timeline : Timeline Task := {}
  /-- The generation of the clock; boxes that got an older one can no longer be ticked. -/
  clock : Nat := 0
  /-- The last lines printed, oldest first. -/
  printed : List String := []
  listeners : List Listener := []
  nextListener : Nat := 0
  /-- What listeners heard, with the name of the beacon. -/
  heard : List (String × List Atom) := []
  /-- How many messages have been heard on the beacon of each name. -/
  heardCounts : Keyed Nat := []
  /-- How many deliveries are under way inside one another. -/
  nesting : Nat := 0
  /-- What happened, the latest first. -/
  events : List Event := []
deriving Inhabited

namespace Studio

/-- The patch of a number. -/
def patch? (studio : Studio) (number : Nat) : Option Patch :=
  (studio.patches.find? fun entry => entry.1 == number).map Prod.snd

/-- Put a patch in the place of the one that has its number. -/
def setPatch (studio : Studio) (number : Nat) (patch : Patch) : Studio :=
  { studio with
    patches := studio.patches.map fun entry =>
      if entry.1 = number then (number, patch) else entry }

/-- Make an empty patch, and give its number. -/
def addPatch (studio : Studio) : Studio × Nat :=
  ({ studio with
      patches := studio.patches ++ [(studio.nextPatch, {})]
      nextPatch := studio.nextPatch + 1 }, studio.nextPatch)

/-- Decide whether a box is in its patch, and that in the studio. -/
def isAlive (studio : Studio) (handle : Handle) : Bool :=
  ((studio.patch? handle.patch).bind fun patch => patch.box? handle.box).isSome

/-- Unbind the castaways that are gone. -/
def prune (studio : Studio) : Studio :=
  let gone : Castaway → Bool
    | .box handle => !studio.isAlive handle
    | .listener number => !studio.listeners.any fun listener => listener.number == number
  { studio with registry := studio.registry.forget gone }

/-- Remove a patch with all its boxes. -/
def dropPatch (studio : Studio) (number : Nat) : Studio :=
  prune { studio with patches := studio.patches.filter fun entry => entry.1 != number }

/-- How many lines of the print-out are kept. -/
def printLimit : Nat := 256

/-- Print a line; the oldest line makes room for it. -/
def print (studio : Studio) (line : String) : Studio :=
  let printed := studio.printed ++ [line]
  { studio with printed := printed.drop (printed.length - printLimit) }

/-- Have a box ticked after a wait by the clock of a generation; an old clock refuses. -/
def tickAfter (studio : Studio) (handle : Handle) (clock wait : Nat) : Studio × Bool :=
  if clock = studio.clock then
    let (timeline, accepted) := studio.timeline.schedule wait (.tick handle)
    ({ studio with timeline }, accepted)
  else (studio, false)

/-- Drop all waiting tasks and all beacons. Boxes made from now on get another clock and other
beacons. -/
def shutdown (studio : Studio) : Studio :=
  { studio with
    timeline := { now := studio.timeline.now }
    clock := studio.clock + 1
    registry := studio.registry.clear }

/-- Bind a new listener to the beacon of a name, and only then dismiss the one that it replaces. -/
def listen (studio : Studio) (name : String) (reply? : Option Reply) : Studio :=
  let (registry, number) := studio.registry.create name
  let others := studio.listeners.filter fun listener => listener.beacon != name
  prune { studio with
    registry := registry.bind number (.listener studio.nextListener)
    listeners := others ++ [⟨studio.nextListener, name, reply?⟩]
    nextListener := studio.nextListener + 1 }

/-- Dismiss the listener of a name. -/
def unlisten (studio : Studio) (name : String) : Studio :=
  prune { studio with
    listeners := studio.listeners.filter fun listener => listener.beacon != name }

/-- How many messages have been heard on the beacon of a name. -/
def heardCount (studio : Studio) (name : String) : Nat := (studio.heardCounts.get? name).getD 0

/-- Note a message heard on the beacon of a name. -/
def hear (studio : Studio) (name : String) (atoms : List Atom) : Studio :=
  { studio with
    heard := studio.heard ++ [(name, atoms)]
    heardCounts := studio.heardCounts.set name (studio.heardCount name + 1) }

/-- What a box knows when it reacts. -/
def surroundings (studio : Studio) (handle : Handle) (sheet : Sheet) : Surroundings :=
  ⟨handle.box, studio.isAlive handle, studio.timeline.now, sheet⟩

/-- Give a box the state and the attributes that it has after a reaction. -/
def settleReaction (studio : Studio) (handle : Handle) (reaction : Reaction Machine) : Studio :=
  match studio.patch? handle.patch with
  | none => studio
  | some patch =>
    studio.setPatch handle.patch <| patch.updateBox handle.box fun box =>
      { box with machine := reaction.state, sheet := reaction.sheet }

end Studio

end Patchbay
