import Patchbay.Sound.Wav.Basic

/-!
# Reading sound files

The chunks of a file are gone through up to the one that holds the samples, before which there must
be one that tells their layout. Chunks of unknown names are skipped.

Several layouts are known: integers or floating-point numbers under a tag of their own, or under an
identifier. Integers may be narrower than the bytes that hold them.
-/

namespace Patchbay.Wav

/-- Going through the bytes of a file. -/
abbrev Reading := StateT Bytes (Except WavError)

/-- Take so many bytes. -/
def take (count : Nat) : Reading Bytes := fun bytes =>
  let taken := bytes.take count
  if taken.length = count then .ok (taken, bytes.drop count) else .error .inaccessible

/-- Take a number of so many bytes. -/
def takeNat (width : Nat) : Reading Nat := do return Bytes.toNat (← take width)

/-- Stop unless a condition holds. -/
def require (condition : Bool) : Reading Unit :=
  if condition then pure () else throw .malformed

/-- The layout of samples as a file tells it: whether they are floating-point numbers, and how many
bytes hold one. -/
structure Layout where
  spec : WavSpec
  isFloat : Bool
  width : Nat
deriving DecidableEq, Repr, Inhabited

/-- Take the rest of a layout whose tag says integers. -/
def takeInteger (size : Nat) (layout : Layout) : Reading Layout := do
  require (size == 16 || size == 18 || size == 40)
  if size != 16 then
    let _ ← takeNat 2
    require ([8, 16, 24].contains layout.spec.bits)
  if size == 40 then
    let _ ← take 22
  return layout

/-- Take the rest of a layout whose tag says floating-point numbers. -/
def takeFloat (size : Nat) (layout : Layout) : Reading Layout := do
  require (size == 16 || size == 18)
  if size == 18 then
    require ((← takeNat 2) == 0)
  require (layout.spec.bits == 32)
  return { layout with isFloat := true }

/-- Take the rest of a layout whose format is given by an identifier. -/
def takeExtensible (size : Nat) (layout : Layout) : Reading Layout := do
  require (40 ≤ size)
  require ((← takeNat 2) == 22)
  let valid ← takeNat 2
  let _ ← takeNat 4
  let identifier ← take 16
  let bits := if valid = 0 then layout.spec.bits else valid
  let isFloat := identifier == formatIdentifier floatTag
  if isFloat || identifier == formatIdentifier integerTag then
    return { layout with spec := { layout.spec with bits }, isFloat }
  else throw .unsupported

/-- Take a layout from a chunk of a given size. -/
def takeLayout (size : Nat) : Reading Layout := do
  require (16 ≤ size)
  let tag ← takeNat 2
  let channels ← takeNat 2
  let sampleRate ← takeNat 4
  let byteRate ← takeNat 4
  let frameBytes ← takeNat 2
  let bits ← takeNat 2
  require (channels != 0)
  let width := frameBytes / channels
  require (bits ≤ 8 * width && 8 * width < UInt16.size)
  require (byteRate == sampleRate * frameBytes && bits % 8 == 0 && bits != 0)
  let layout : Layout := ⟨{ channels, sampleRate, bits }, false, width⟩
  if tag = integerTag then takeInteger size layout
  else if tag = floatTag then takeFloat size layout
  else if tag = extensibleTag then takeExtensible size layout
  else throw .unsupported

/-- Go through at most `steps` chunks, up to the one with the samples. The result is their layout
and how many bytes they are said to take. -/
def takeHeader : (steps : Nat) → Option Layout → Reading (Layout × Nat)
  | 0, _ => throw .inaccessible
  | steps + 1, known => do
    let name ← take 4
    let size ← takeNat 4
    if name == letters "fmt " then
      let layout ← takeLayout size
      takeHeader steps (some layout)
    else if name == letters "data" then
      match known with
      | some layout => return (layout, size)
      | none => throw .malformed
    else
      let _ ← take (if name == letters "fact" then 4 else size)
      takeHeader steps known

/-- How the number in the bytes of a sample is read, if the layout is one of those supported. -/
def decoder (layout : Layout) : Except WavError (Nat → Stored) :=
  let whole (value : Nat → Int) : Except WavError (Nat → Stored) := .ok fun n => .whole (value n)
  match layout.isFloat, layout.width, layout.spec.bits with
  | true, 4, 32 => .ok fun n => .float ⟨UInt32.ofNat n⟩
  | false, 1, 8 => whole fun n => (n : Int) - 128
  | false, 2, 16 => whole (Bytes.signed 2)
  | false, 3, 24 => whole (Bytes.signed 3)
  | false, 4, 24 => whole fun n => Bytes.signed 3 (n % Bytes.range 3)
  | false, 4, 32 => whole (Bytes.signed 4)
  | _, width, _ => .error (if width > 4 then .tooWide else .unsupported)

/-- Take a number of samples of so many bytes each. -/
def takeSamples (decode : Nat → Stored) (width : Nat) : (count : Nat) → Reading (List Stored)
  | 0 => pure []
  | count + 1 => do
    let sample ← takeNat width
    return decode sample :: (← takeSamples decode width count)

/-- Take a whole file. -/
def takeFile : Reading (List Stored × WavSpec) := do
  require ((← take 4) == letters "RIFF")
  let _ ← takeNat 4
  require ((← take 4) == letters "WAVE")
  let (layout, size) ← takeHeader (← get).length none
  let count := size / layout.width
  require (size % layout.width == 0 && count % layout.spec.channels == 0)
  let samples ← match decoder layout with
    | .ok decode => takeSamples decode layout.width count
    | .error error => if count = 0 then pure [] else throw error
  return (samples, layout.spec)

/-- The samples in the content of a sound file, and their layout. -/
def unpack (bytes : Bytes) : Except WavError (List Stored × WavSpec) :=
  (takeFile.run bytes).map Prod.fst

end Patchbay.Wav
