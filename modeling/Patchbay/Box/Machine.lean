import Patchbay.Box.Bench
import Patchbay.Box.Control
import Patchbay.Box.Timing
import Patchbay.Box.Wireless

/-!
# Machines

The inner part of any box: which family it belongs to, and its state. A model says which box is to
be built.
-/

namespace Patchbay

/-- A box of any family with its state. -/
inductive Machine where
  | control (state : Control)
  | wireless (state : Wireless)
  | timing (state : Timing)
  | audio (state : Audio)
  | bench (state : Bench)
deriving Inhabited

/-- The boxes that can be built. -/
inductive Model where
  | plus
  | times
  | print
  | pass
  | speaker
  | hearer
  | delay
  | metro
  | constant
  | oscillator
  | timesSignal
  | plusSignal
  | input
  | output
  | idle
  | twin
  | late
  | agent
  | panel
deriving DecidableEq, Repr, Inhabited

namespace Plan

/-- View a plan with states in another type. -/
def map {M N : Type} (f : M → N) (plan : Plan M) : Plan N :=
  { plan with state := fun number => f (plan.state number) }

end Plan

namespace Model

/-- Plan a box; the reason is given if its arguments are of no use. -/
def plan (model : Model) (site : Site) : Except String (Plan Machine) :=
  match model with
  | plus => .ok ((Control.planArithmetic .add site).map .control)
  | times => .ok ((Control.planArithmetic .multiply site).map .control)
  | print => .ok ((Control.planPrint site).map .control)
  | pass => .ok (Control.planPass.map .control)
  | speaker => (Wireless.planSpeaker site).map (·.map .wireless)
  | hearer => (Wireless.planHearer site).map (·.map .wireless)
  | delay => .ok ((Timing.planDelay site).map .timing)
  | metro => .ok ((Timing.planMetro site).map .timing)
  | constant => .ok ((Audio.planConstant site).map .audio)
  | oscillator => .ok ((Audio.planOscillator site).map .audio)
  | timesSignal => .ok ((Audio.planCombine .multiply site).map .audio)
  | plusSignal => .ok ((Audio.planCombine .add site).map .audio)
  | input => (Audio.planInput site).map (·.map .audio)
  | output => (Audio.planOutput site).map (·.map .audio)
  | idle => .ok (Bench.planIdle.map .bench)
  | twin => .ok (Bench.planTwin.map .bench)
  | late => .ok (Bench.planLate.map .bench)
  | agent => .ok (Bench.planAgent.map .bench)
  | panel => .ok ((Bench.planPanel site).map .bench)

end Model

namespace Machine

/-- React to a message at an inlet. -/
def receive (here : Surroundings) (inlet : Nat) (atoms : List Atom) (machine : Machine) :
    Reaction Machine :=
  match machine with
  | control state => (state.receive here inlet atoms).map control
  | wireless state => (state.receive here atoms).map wireless
  | timing state => (state.receive here inlet atoms).map timing
  | audio state => (state.receive here inlet atoms).map audio
  | bench state => (state.receive here atoms).map bench

/-- React to a tick of the clock. -/
def tick (here : Surroundings) (machine : Machine) : Reaction Machine :=
  match machine with
  | timing state => (state.tick here).map timing
  | _ => .ignore machine here.sheet

/-- Decide whether the box takes part in signal processing if it has to do with signals. -/
def isReady : Machine → Bool
  | audio _ => true
  | bench state => state.isReady
  | _ => false

/-- Get ready for a sample rate. -/
def prepare (sampleRate : Float32) : Machine → Machine
  | audio state => audio (state.prepare sampleRate)
  | machine => machine

/-- Go back to the start when signal processing stops. -/
def release : Machine → Machine
  | audio state => audio state.release
  | machine => machine

/-- Decide whether the box can change the buffer it is fed from. -/
def worksInPlace : Machine → Bool
  | audio state => state.worksInPlace
  | bench state => state.isReady
  | _ => false

/-- Compute a block. -/
def perform (inputs : Inputs Sample) (buffers : List (Buffer Sample)) (machine : Machine) :
    Machine × Outputs Sample :=
  match machine with
  | audio state =>
    let (state, outputs) := state.perform inputs buffers
    (audio state, outputs)
  | bench state =>
    let (state, outputs) := state.perform inputs buffers
    (bench state, outputs)
  | machine => (machine, ⟨buffers, []⟩)

/-- Compute a block in place. -/
def performInPlace (buffer : Buffer Sample) (machine : Machine) : Machine × Buffer Sample :=
  match machine with
  | audio state =>
    let (state, buffer) := state.performInPlace buffer
    (audio state, buffer)
  | machine => (machine, buffer)

end Machine

end Patchbay
