import Patchbay.Sound.Wav.Writer
import Patchbay.Sound.Wav.Reader

/-!
# The channels of sound files

Samples go into a file frame by frame. Channels that are shorter than the longest one are filled up with
silence, and so are channels that are missing. The frames of a file are dealt out to its channels again,
where the last one may be incomplete.
-/

namespace Patchbay.Wav

/-! ### Writing -/

/-- The integer nearest to a sample on the side of zero, within the range of integers of so many
bits. -/
def quantize (bits : Nat) (sample : Sample) : Int :=
  let swing := fullScale (max 2 (min 32 bits))
  let scaled := sample.toSingle * swing
  let low := -swing
  let high := swing - 1.0
  let held := if scaled < low then low else if scaled > high then high else scaled
  ((Binary.ofSingle? held).map Binary.truncate).getD 0

/-- A sample as it goes into a file. -/
def store (bits : Nat) (sample : Sample) : Stored :=
  if bits = 32 then .float sample else .whole (quantize bits sample)

/-- Samples frame by frame, given the number of frames. -/
def interleave : (frames : Nat) → List (Buffer Sample) → Buffer Sample
  | 0, _ => []
  | frames + 1, channels =>
    channels.map (fun channel => channel.headD .zero) ++
      interleave frames (channels.map List.tail)

/-- The number of frames that hold all samples. -/
def frameCount (channels : List (Buffer Sample)) : Nat :=
  channels.foldl (fun most channel => max most channel.length) 0

/-- As many channels as there are to be; missing ones are empty. -/
def fitChannels (width : Nat) (channels : List (Buffer Sample)) : List (Buffer Sample) :=
  channels.take width ++ List.replicate (width - channels.length) []

/-- All samples in the order of the file. -/
def samplesInOrder (spec : WavSpec) (channels : List (Buffer Sample)) : Buffer Sample :=
  interleave (frameCount channels) (fitChannels spec.channels channels)

/-- The content of a file with the samples of channels. -/
def Container.write (container : Container) (spec : WavSpec) (channels : List (Buffer Sample)) :
    Except WavError Bytes :=
  container.pack spec ((samplesInOrder spec channels).map (store spec.bits))

/-! ### Reading -/

/-- The sample that a file holds. -/
def Stored.sample (bits : Nat) : Stored → Sample
  | float sample => sample
  | whole value => .ofSingle (Float32.ofInt value / fullScale bits)

/-- Channels with one more frame in front of them. If it is incomplete, the last channels have nothing
from it. -/
def putFrame : Buffer Sample → List (Buffer Sample) → List (Buffer Sample)
  | [], channels => channels
  | _, [] => []
  | sample :: frame, channel :: channels => (sample :: channel) :: putFrame frame channels

/-- The channels of samples that are in the order of frames, given the number of frames. -/
def separate (width : Nat) : (frames : Nat) → Buffer Sample → List (Buffer Sample)
  | 0, _ => List.replicate width []
  | frames + 1, samples =>
    putFrame (samples.take width) (separate width frames (samples.drop width))

/-- The channels in the content of a file, and their layout. There is at least one channel. -/
def Container.read (container : Container) (bytes : Bytes) :
    Except WavError (List (Buffer Sample) × WavSpec) :=
  (container.unpack bytes).map fun (samples, spec) =>
    let width := max 1 spec.channels
    let frames := (samples.length + width - 1) / width
    (separate width frames (samples.map (Stored.sample spec.bits)), spec)

/-! ### Files -/

/-- The container that is used for files. -/
def riff : Container := ⟨pack, unpack⟩

/-- The content of a sound file. -/
def write (spec : WavSpec) (channels : List (Buffer Sample)) : Except WavError Bytes :=
  riff.write spec channels

/-- The channels in the content of a sound file, and their layout. -/
def read (bytes : Bytes) : Except WavError (List (Buffer Sample) × WavSpec) := riff.read bytes

end Patchbay.Wav
