import Patchbay.Sound.Wav.Basic

/-!
# Writing sound files

A sound file has a header that tells its layout, and then all samples.
-/

namespace Patchbay.Wav

/-- The depths that can be written. -/
def depths : List Nat := [8, 16, 24, 32]

/-- Decide whether a short header says all: one or two channels of 8 or 16 bits. -/
def hasShortHeader (spec : WavSpec) : Bool :=
  spec.channels ≤ 2 && (spec.bits == 8 || spec.bits == 16)

/-- How many bytes a second takes, as far as the header has room for them. -/
def byteRate (spec : WavSpec) : Nat := spec.sampleRate * spec.frameBytes % Bytes.range 4

/-- What both kinds of header say, under the tag of a format. How many bytes a frame takes is told
as the quotient of the two rates. -/
def commonFormat (spec : WavSpec) (tag : Nat) : Bytes :=
  Bytes.ofNat 2 tag ++ Bytes.ofNat 2 spec.channels ++ Bytes.ofNat 4 spec.sampleRate ++
    Bytes.ofNat 4 (byteRate spec) ++ Bytes.ofNat 2 (byteRate spec / spec.sampleRate) ++
    Bytes.ofNat 2 spec.bits

/-- The speakers of the channels, one bit each; only so many have a place. -/
def speakers (channels : Nat) : Nat := 1 <<< min channels 18 - 1

/-- The layout of the samples. -/
def formatChunk (spec : WavSpec) : Bytes :=
  if hasShortHeader spec then commonFormat spec integerTag
  else
    commonFormat spec extensibleTag ++ Bytes.ofNat 2 22 ++ Bytes.ofNat 2 spec.bits ++
      Bytes.ofNat 4 (speakers spec.channels) ++
      formatIdentifier (if spec.bits = 32 then floatTag else integerTag)

/-- A chunk: its name, its length and its content. -/
def chunk (name : String) (content : Bytes) : Bytes :=
  letters name ++ Bytes.ofNat 4 content.length ++ content

/-- The bytes of a sample. -/
def storedContent (bits : Nat) : Stored → Bytes
  | .float sample => Bytes.ofNat 4 sample.bits.toNat
  | .whole value =>
    let shifted := if bits = 8 then value + 128 else value
    Bytes.ofNat (bits / 8) (shifted % Bytes.range (bits / 8)).toNat

/-- The content of a sound file. -/
def pack (spec : WavSpec) (samples : List Stored) : Except WavError Bytes :=
  if depths.contains spec.bits then
    .ok (chunk "RIFF"
      (letters "WAVE" ++ chunk "fmt " (formatChunk spec) ++
        chunk "data" (samples.flatMap (storedContent spec.bits))))
  else .error .unsupported

end Patchbay.Wav
