import Patchbay.Box.Operator
import Patchbay.Box.Reaction
import Patchbay.Signal.Chain
import Patchbay.Signal.Phase

/-!
# Audio boxes

Boxes that compute signals in single precision. Numbers that come as messages are rounded to it; the
phase of an oscillator is kept in double precision, as a part of a turn.
-/

namespace Patchbay

/-- An audio box with its state. Channels count from zero. -/
inductive Audio where
  /-- A constant signal. -/
  | constant (value : Sample)
  /-- A cosine; a signal at its first inlet takes the place of the frequency. -/
  | oscillator (frequency : Sample) (phase : Phase) (rate : Float)
  /-- Two signals combined, or a signal and a number. -/
  | combine (operator : Operator) (scalar : Sample)
  /-- Input channels of the bus. -/
  | input (channels : List Nat)
  /-- Output channels of the bus. -/
  | output (channels : List Nat)
deriving Inhabited

namespace Audio

/-- The sample nearest to a number; a NaN keeps its sign. -/
def sampleOf? (atom : Atom) : Option Sample :=
  if atom.isMinusNaN then some .invalid
  else if atom.isNumber then some (.ofDouble atom.toDouble)
  else none

/-- A numeric creation argument as a sample. -/
def sampleArgument (site : Site) (index : Nat) (other : Sample) : Sample :=
  (sampleOf? (site.argument index)).getD other

/-- Plan a constant signal. -/
def planConstant (site : Site) : Plan Audio :=
  { inlets := [.control "value"]
    outlets := [.audio "constant signal"]
    state := fun _ => .constant (sampleArgument site 0 .zero) }

/-- Plan an oscillator. -/
def planOscillator (site : Site) : Plan Audio :=
  { inlets := [.both "frequency (Hz)", (Inlet.control "phase (0-1)").cold]
    outlets := [.audio "cosine"]
    state := fun _ => .oscillator (sampleArgument site 0 .zero) .start 44100.0 }

/-- Plan a box that combines signals. -/
def planCombine (operator : Operator) (site : Site) : Plan Audio :=
  { inlets := [.signal "left signal", .both "right signal or scalar"]
    outlets := [.audio "result"]
    state := fun _ => .combine operator (sampleArgument site 0 operator.neutral) }

/-- The channel that an argument names, counted from one. -/
def channel? : Atom → Option Nat
  | .long n => if 1 ≤ n.toInt then some (n.toInt.toNat - 1) else none
  | _ => none

/-- The channels that the arguments name; without arguments, the first two. -/
def channels (site : Site) : Except String (List Nat) :=
  if site.arguments.isEmpty then .ok [0, 1]
  else
    site.arguments.mapM fun atom =>
      match channel? atom with
      | some channel => .ok channel
      | none =>
        .error (String.ofList ("invalid channel '".toList ++ Words.word atom ++ ['\'']))

/-- The description of an inlet or outlet that stands for a channel. -/
def describeChannel (what : String) (channel : Nat) : String :=
  String.ofList (what.toList ++ " channel ".toList ++ Numeral.nat (channel + 1))

/-- Plan a box for input channels. -/
def planInput (site : Site) : Except String (Plan Audio) :=
  (channels site).map fun channels =>
    { outlets := channels.map fun channel => .audio (describeChannel "input" channel)
      state := fun _ => .input channels }

/-- Plan a box for output channels. -/
def planOutput (site : Site) : Except String (Plan Audio) :=
  (channels site).map fun channels =>
    { inlets := channels.map fun channel => .signal (describeChannel "output" channel)
      state := fun _ => .output channels }

/-- React to a message: a number sets a value of the box. -/
def receive (here : Surroundings) (inlet : Nat) (atoms : List Atom) (audio : Audio) :
    Reaction Audio :=
  match atoms.head?, atoms.head?.bind sampleOf? with
  | some atom, some x =>
    match audio with
    | .constant _ => { state := .constant x, sheet := here.sheet }
    | .oscillator frequency phase rate =>
      if inlet = 0 then { state := .oscillator x phase rate, sheet := here.sheet }
      else { state := .oscillator frequency (.ofTurns atom.toDouble) rate, sheet := here.sheet }
    | .combine operator _ =>
      if inlet = 1 then { state := .combine operator x, sheet := here.sheet }
      else .ignore audio here.sheet
    | .input _ | .output _ => .ignore audio here.sheet
  | _, _ => .ignore audio here.sheet

/-- Get ready for a sample rate. -/
def prepare (sampleRate : Float32) : Audio → Audio
  | .oscillator frequency phase _ => .oscillator frequency phase sampleRate.toFloat
  | audio => audio

/-- Go back to the start when signal processing stops. -/
def release : Audio → Audio
  | .oscillator frequency _ rate => .oscillator frequency .start rate
  | audio => audio

/-- The buffer at an inlet; an inlet without a wire is silent. -/
def samplesAt (inputs : Inputs Sample) (inlet : Nat) : Buffer Sample :=
  ((inputs.inlets[inlet]?).join).getD (Buffer.constant inputs.blockSize .zero)

/-- Decide whether an inlet has a wire. -/
def isConnected (inputs : Inputs Sample) (inlet : Nat) : Bool :=
  ((inputs.inlets[inlet]?).join).isSome

/-- Write over the buffer of the first outlet. -/
def atFirst (buffers : List (Buffer Sample)) (samples : Buffer Sample) : List (Buffer Sample) :=
  buffers.modify 0 fun buffer => buffer.overwrite samples

/-- Compute a block. -/
def perform (inputs : Inputs Sample) (buffers : List (Buffer Sample)) (audio : Audio) :
    Audio × Outputs Sample :=
  match audio with
  | .constant value =>
    (audio, ⟨atFirst buffers (Buffer.constant inputs.blockSize value), []⟩)
  | .oscillator frequency phase rate =>
    let size := ((buffers.head?).getD []).length
    let frequencies :=
      if isConnected inputs 0 then Buffer.fit size frequency (samplesAt inputs 0)
      else List.replicate size frequency
    let (last, samples) := phase.oscillate rate frequencies
    (.oscillator frequency last rate, ⟨atFirst buffers samples, []⟩)
  | .combine operator scalar =>
    let left := samplesAt inputs 0
    let samples :=
      if isConnected inputs 1 then List.zipWith operator.applySample left (samplesAt inputs 1)
      else left.map fun x => operator.applySample x scalar
    (audio, ⟨atFirst buffers samples, []⟩)
  | .input channels =>
    let silence := Buffer.constant inputs.blockSize Sample.zero
    (audio, ⟨(List.range buffers.length).map fun outlet =>
      let buffer := (buffers[outlet]?).getD []
      match channels[outlet]? with
      | some channel => Buffer.overwrite buffer (inputs.channels[channel]?.getD silence)
      | none => buffer, []⟩)
  | .output channels =>
    let added := ((List.range channels.length).zip channels).filterMap fun (inlet, channel) =>
      if isConnected inputs inlet then some (channel, samplesAt inputs inlet) else none
    (audio, ⟨buffers, added⟩)

/-- Decide whether the box can change the buffer it is fed from. -/
def worksInPlace : Audio → Bool
  | .combine .multiply _ => true
  | _ => false

/-- Compute a block in place. -/
def performInPlace (buffer : Buffer Sample) (audio : Audio) : Audio × Buffer Sample :=
  match audio with
  | .combine operator scalar => (audio, buffer.map fun x => operator.applySample x scalar)
  | audio => (audio, buffer)

end Audio

end Patchbay
