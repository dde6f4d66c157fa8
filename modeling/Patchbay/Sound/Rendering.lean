import Patchbay.Patch.Running

/-!
# Rendering

A patch is rendered by running its signal chain for a given time, block after block, while its input
channels are fed and its output channels are collected. Signal processing is started for the purpose
and stopped at the end.
-/

namespace Patchbay

/-- For how long, at which rate and in which blocks a patch is rendered. -/
structure RenderSettings where
  seconds : Float := 1.0
  sampleRate : Nat := 44100
  blockSize : Nat := 64
deriving Repr, Inhabited

/-- Why a patch cannot be rendered. -/
inductive RenderError where
  | badDuration (seconds : Float)
  | notPositive
deriving Repr, Inhabited

/-- How the reason reads. -/
def RenderError.message : RenderError → String
  | badDuration seconds =>
    "invalid settings: duration " ++ String.ofList (Numeral.double seconds) ++
      " s is not a non-negative number"
  | notPositive => "invalid settings: sample rate and block size must be positive"

namespace RenderSettings

/-- The largest number of frames that can be counted. -/
def mostFrames : Nat := UInt64.size - 1

/-- The number of samples on every channel: the product of time and rate, computed in doubles and
rounded to the nearest whole number, a half away from zero. -/
def frames (settings : RenderSettings) : Nat :=
  let product := settings.seconds * Float.ofNat settings.sampleRate
  match Binary.ofDouble? product with
  | some value => if value.negative then 0 else min mostFrames value.rounded
  | none => if product > 0.0 then mostFrames else 0

/-- The number of blocks that cover all frames. -/
def blocks (settings : RenderSettings) : Nat :=
  let size := max settings.blockSize 1
  (settings.frames + size - 1) / size

/-- After every block, how many are done and how many there are. -/
def progress (settings : RenderSettings) : List (Nat × Nat) :=
  (List.range settings.blocks).map fun done => (done + 1, settings.blocks)

/-- The rate as the signal chain knows it. -/
def rate (settings : RenderSettings) : Float32 := Float32.ofNat settings.sampleRate

/-- Why the settings cannot be used, if so. -/
def problem? (settings : RenderSettings) : Option RenderError :=
  if !settings.seconds.isFinite || settings.seconds < 0.0 then some (.badDuration settings.seconds)
  else if settings.sampleRate = 0 || settings.blockSize = 0 then some .notPositive
  else none

end RenderSettings

namespace Patch

/-- Render a number of blocks, of which all frames but the given number are cut off. The inputs are
what is left to be fed to each channel. -/
def renderBlocks (processor : Processor Sample (List Box)) (blockSize : Nat) :
    Nat → Nat → List (Buffer Sample) → Patch → Patch × List (Buffer Sample)
  | 0, _, _, patch => (patch, List.replicate patch.channels.2 [])
  | blocks + 1, frames, inputs, patch =>
    let size := min blockSize frames
    let fed := (List.range patch.channels.1).map fun channel =>
      (inputs[channel]?.getD []).take size
    let (played, _, block) :=
      patch.process processor fed (List.replicate patch.channels.2 blockSize)
    let (last, later) := renderBlocks processor blockSize blocks (frames - size)
      (inputs.map fun input => input.drop blockSize) played
    (last, List.zipWith (fun samples rest => samples.take size ++ rest) block later)

/-- Render the patch: one list of samples for each output channel. Input channels are silent where
there are no samples for them. A cycle of signals is no obstacle, it renders as silence. -/
def render (processor : Processor Sample (List Box)) (patch : Patch) (settings : RenderSettings)
    (inputs : List (Buffer Sample)) : Except RenderError (Patch × List (Buffer Sample)) :=
  match settings.problem? with
  | some problem => .error problem
  | none =>
    let (started, _) := patch.start settings.rate settings.blockSize
    let (played, channels) :=
      renderBlocks processor settings.blockSize settings.blocks settings.frames inputs started
    .ok (played.stop, channels)

end Patch

end Patchbay
