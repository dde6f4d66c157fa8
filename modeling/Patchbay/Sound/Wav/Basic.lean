import Patchbay.Number.Bytes
import Patchbay.Sound.Rendering

/-!
# Sound files

What is known about the samples in a sound file. A container is a kind of file that holds samples one
after the other, and their layout. Samples of 32 bits are written as floating-point numbers, all others
as integers. The container in use is RIFF WAVE, where integers of 8, 16 and 24 bits can be written, of
which those of 8 bits are unsigned.
-/

namespace Patchbay

/-- The layout of the samples in a sound file. -/
structure WavSpec where
  channels : Nat := 2
  sampleRate : Nat := 44100
  bits : Nat := 32
deriving DecidableEq, Repr, Inhabited

/-- Why a sound file cannot be read or written. -/
inductive WavError where
  /-- The file cannot be opened or ends too early. -/
  | inaccessible
  | malformed
  | tooWide
  | unsupported
deriving DecidableEq, Repr, Inhabited

/-- How the reason reads. -/
def WavError.message : WavError → String
  | inaccessible => "WAV file error: the file cannot be accessed"
  | malformed => "WAV file error: ill-formed WAVE file"
  | tooWide => "WAV file error: the sample has more bits than the destination type"
  | unsupported => "WAV file error: the wave format of the file is not supported"

namespace WavSpec

/-- The layout that fits a rendering: at least one channel, and floating-point samples. -/
def ofRendering (settings : RenderSettings) (channels : Nat) : WavSpec :=
  { channels := max 1 (min 65535 channels), sampleRate := settings.sampleRate, bits := 32 }

/-- How many bytes hold a sample. -/
def sampleBytes (spec : WavSpec) : Nat := (spec.bits + 7) / 8

/-- How many bytes hold a frame. -/
def frameBytes (spec : WavSpec) : Nat := spec.sampleBytes * spec.channels

end WavSpec

namespace Wav

/-- A sample as a file holds it. -/
inductive Stored where
  | float (sample : Sample)
  | whole (value : Int)
deriving DecidableEq, Repr, Inhabited

/-- A kind of file for samples and their layout: how they are put into a file, and how they are taken out
of it again. -/
structure Container where
  pack : WavSpec → List Stored → Except WavError Bytes
  unpack : Bytes → Except WavError (List Stored × WavSpec)

/-- The magnitude of the least integer sample, which stands for a full swing. -/
def fullScale (bits : Nat) : Float32 := Float32.ofNat (1 <<< (bits - 1))

/-- The tag of integer samples. -/
def integerTag : Nat := 1

/-- The tag of floating-point samples. -/
def floatTag : Nat := 3

/-- The tag that says that the format is given by an identifier. -/
def extensibleTag : Nat := 0xfffe

/-- The identifier of a sample format: its tag and a fixed ending. -/
def formatIdentifier (tag : Nat) : Bytes :=
  Bytes.ofNat 4 tag ++ [0x00, 0x00, 0x10, 0x00, 0x80, 0x00, 0x00, 0xaa, 0x00, 0x38, 0x9b, 0x71]

/-- The four letters that a chunk is named with. -/
def letters (name : String) : Bytes := name.toUTF8.toList

end Wav

end Patchbay
