/-!
# Samples

A sample is a number of single precision, kept as its bits, so that a NaN keeps its sign and its
payload on the way from one sound file to another.

Sums and products follow IEEE 754. Where the standard leaves a choice, the NaN of the first operand
that is one goes on, made quiet, and an operation without a meaning gives the negative quiet NaN
without a payload.
-/

namespace Patchbay

/-- A sample of a signal, in the layout of single precision. -/
structure Sample where
  bits : UInt32
deriving DecidableEq, Repr, Inhabited

namespace Sample

/-- The sample of a single. -/
def ofSingle (x : Float32) : Sample := ⟨x.toBits⟩

/-- The sample as a single. -/
def toSingle (sample : Sample) : Float32 := Float32.ofBits sample.bits

/-- The sample nearest to a double. -/
def ofDouble (x : Float) : Sample := ofSingle x.toFloat32

/-- The sample as a double. -/
def toDouble (sample : Sample) : Float := sample.toSingle.toFloat

/-- Silence. -/
def zero : Sample := ⟨0⟩

/-- A full swing. -/
def one : Sample := ⟨0x3f800000⟩

/-- Decide whether the sample is a NaN: all bits of its power are set, and some of its fraction. -/
def isNaN (sample : Sample) : Bool := 0x7f800000 < sample.bits &&& 0x7fffffff

/-- A NaN made quiet, with its sign and payload. -/
def quiet (sample : Sample) : Sample := ⟨sample.bits ||| 0x00400000⟩

/-- What an operation without a meaning gives. -/
def invalid : Sample := ⟨0xffc00000⟩

/-- Apply an operation of singles. -/
def combine (operation : Float32 → Float32 → Float32) (a b : Sample) : Sample :=
  if a.isNaN then a.quiet
  else if b.isNaN then b.quiet
  else
    let result := ofSingle (operation a.toSingle b.toSingle)
    if result.isNaN then invalid else result

/-- The sum of two samples. -/
def add : Sample → Sample → Sample := combine fun a b => a + b

/-- The product of two samples. -/
def multiply : Sample → Sample → Sample := combine fun a b => a * b

end Sample

end Patchbay
