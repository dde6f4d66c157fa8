import Patchbay.Patch.Running

/-!
# Engine settings

The settings with which a patch is set up and run. Every setting has a default and a range. A value
out of range is reported, the first one in the order of the fields.
-/

namespace Patchbay

/-- How patches are set up and run. -/
structure EngineSettings where
  sampleRate : Nat := 44100
  blockSize : Nat := 64
  inputChannels : Nat := 2
  outputChannels : Nat := 2
  /-- How deeply deliveries of messages may nest. -/
  dispatchDepth : Nat := 512
  /-- Which log entries are wanted, if this is set. -/
  logFilter? : Option String := none
deriving DecidableEq, Repr, Inhabited

/-- A setting that is out of range, and why. -/
structure SettingProblem where
  field : String
  reason : String
deriving DecidableEq, Repr, Inhabited

/-- How the problem reads. -/
def SettingProblem.message (problem : SettingProblem) : String :=
  s!"invalid setting '{problem.field}': {problem.reason}"

namespace EngineSettings

/-- The name of the sample rate in files. -/
def sampleRateName : String := "sample_rate"

/-- The name of the block size in files. -/
def blockSizeName : String := "block_size"

/-- The name of the number of input channels in files. -/
def inputChannelsName : String := "input_channels"

/-- The name of the number of output channels in files. -/
def outputChannelsName : String := "output_channels"

/-- The name of the depth of deliveries in files. -/
def dispatchDepthName : String := "max_dispatch_depth"

/-- The name of the log filter in files. -/
def logFilterName : String := "log_filter"

/-- The sample rates that can be used. -/
def sampleRates : Nat × Nat := (8000, 384000)

/-- The block sizes that can be used. -/
def blockSizes : Nat × Nat := (1, 8192)

/-- The most channels in either direction. -/
def mostChannels : Nat := 64

/-- What is wrong with a value that must lie in a range. -/
def outside? (field : String) (range : Nat × Nat) (value : Nat) : Option SettingProblem :=
  if range.1 ≤ value ∧ value ≤ range.2 then none
  else some ⟨field, s!"{value} is outside {range.1}..={range.2}"⟩

/-- What is wrong with a number of channels. -/
def tooMany? (field : String) (count : Nat) : Option SettingProblem :=
  if count ≤ mostChannels then none else some ⟨field, s!"{count} exceeds {mostChannels}"⟩

/-- The first setting that is out of range. -/
def problem? (settings : EngineSettings) : Option SettingProblem :=
  [outside? sampleRateName sampleRates settings.sampleRate,
    outside? blockSizeName blockSizes settings.blockSize,
    tooMany? inputChannelsName settings.inputChannels,
    tooMany? outputChannelsName settings.outputChannels,
    if settings.dispatchDepth = 0 then some ⟨dispatchDepthName, "must be at least 1"⟩
    else none].findSome? id

/-- The sample rate as the signal chain knows it. -/
def rate (settings : EngineSettings) : Float32 := Float32.ofNat settings.sampleRate

/-- Set up a patch: its channels, and how deeply deliveries may nest. -/
def setUp (settings : EngineSettings) (patch : Patch) : Patch :=
  (patch.setChannels settings.inputChannels settings.outputChannels).setDepthLimit
    settings.dispatchDepth

end EngineSettings

end Patchbay
