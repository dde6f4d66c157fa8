import Patchbay.Box.Audio

/-!
# Bench boxes

Boxes for trying out a patch. The agent edits the patch it is in, the panel tells how it was made,
and the signal boxes are unusual: the idle one takes no part in signal processing, the other two can
work in place but must not always do so.
-/

namespace Patchbay

/-- A bench box. -/
inductive Bench where
  | idle
  /-- Two signal outlets. -/
  | twin
  /-- One outlet for messages, and a signal outlet behind it. -/
  | late
  | agent
  /-- The message tells how the box was made. -/
  | panel (message : List Atom)
deriving Inhabited

namespace Bench

/-- Plan the idle box. -/
def planIdle : Plan Bench :=
  { inlets := [.both "in", (Inlet.signal "cold in").cold]
    outlets := [.audio "out"]
    state := fun _ => .idle }

/-- Plan the box with two signal outlets. -/
def planTwin : Plan Bench :=
  { inlets := [.signal "in"], outlets := [.audio "a", .audio "b"], state := fun _ => .twin }

/-- Plan the box whose signal outlet comes second. -/
def planLate : Plan Bench :=
  { inlets := [.signal "in"]
    outlets := [.control "unused", .audio "out"]
    state := fun _ => .late }

/-- Plan the agent. -/
def planAgent : Plan Bench :=
  { inlets := [.control "command"]
    outlets := [.control "the same message"]
    state := fun _ => .agent }

/-- Plan the panel. While it is being made it is not in its patch yet. -/
def planPanel (site : Site) : Plan Bench :=
  { inlets := [.control "bang"]
    outlets := [.control "construction"]
    attributes := [
      .declare "label" .symbol [.symbol "none"],
      (Attribute.declare "scratch" .long []).withFlags { unsaved := true },
      .declare "notes" .list []]
    state := fun _ => .panel [.symbol site.name, .bool false, .long (Int64.ofNat site.id),
      .vector site.arguments, .vector (site.keys.map .symbol)] }

/-- A number that an edit needs; one that is missing is zero, and negative numbers wrap around. -/
def editNumber (atoms : List Atom) (index : Nat) : Nat :=
  ((atoms[index]?.map Atom.toLong).getD 0).toUInt64.toNat

/-- The number of a box that an edit needs. -/
def editBox (atoms : List Atom) (index : Nat) : Nat := editNumber atoms index % UInt32.size

/-- The edit that a message asks for. -/
def edit? (atoms : List Atom) : Option Edit :=
  match atoms with
  | .symbol word :: rest =>
    match word with
    | "remove" => some (.remove (editBox rest 0))
    | "connect" =>
      some (.connect (editBox rest 0) (editNumber rest 1) (editBox rest 2) (editNumber rest 3))
    | "disconnect" =>
      some (.disconnect (editBox rest 0) (editNumber rest 1) (editBox rest 2) (editNumber rest 3))
    | "create" => some (.create rest)
    | "clear" => some .clear
    | _ => none
  | _ => none

/-- React to a message. -/
def receive (here : Surroundings) (atoms : List Atom) (bench : Bench) : Reaction Bench :=
  match bench with
  | .agent =>
    let echo := Effect.send 0 atoms
    match edit? atoms with
    | some edit =>
      { state := bench, sheet := here.sheet, effects := [.edit edit, echo]
        verdict := .asFirstEffect }
    | none =>
      if (atoms.head?.map (Atom.isWord "me")).getD false then
        { state := bench, sheet := here.sheet
          effects := [.send 0 [.long (Int64.ofNat here.id), .bool here.alive], echo] }
      else
        { state := bench, sheet := here.sheet, effects := [echo], verdict := .known false }
  | .panel message => { state := bench, sheet := here.sheet, effects := [.send 0 message] }
  | _ => .ignore bench here.sheet

/-- Decide whether the box takes part in signal processing. -/
def isReady : Bench → Bool
  | .twin | .late => true
  | _ => false

/-- Compute a block: each outlet is a multiple of the input, the first the largest. -/
def perform (inputs : Inputs Sample) (buffers : List (Buffer Sample)) (bench : Bench) :
    Bench × Outputs Sample :=
  if bench.isReady then
    (bench, ⟨buffers.mapIdx fun outlet buffer =>
      let factor := Sample.ofSingle (Float32.ofNat (buffers.length - 1 - outlet + 2))
      buffer.overwrite ((Audio.samplesAt inputs 0).map factor.multiply), []⟩)
  else (bench, ⟨buffers, []⟩)

end Bench

end Patchbay
