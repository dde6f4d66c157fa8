/-!
# Buffers and the bus

Signals are computed in blocks: a buffer holds the samples of one block. The bus joins a patch to
the outside, with a buffer for every input and every output channel.
-/

namespace Patchbay

/-- The samples of one block. -/
abbrev Buffer (σ : Type) := List σ

namespace Buffer

variable {σ : Type}

/-- A buffer that holds one value throughout. -/
def constant (size : Nat) (value : σ) : Buffer σ := List.replicate size value

/-- Write samples over the front of a buffer, whose size stays. -/
def overwrite (buffer samples : Buffer σ) : Buffer σ :=
  samples.take buffer.length ++ buffer.drop samples.length

/-- Add samples into a buffer, whose size stays. -/
def addInto (add : σ → σ → σ) : Buffer σ → Buffer σ → Buffer σ
  | x :: buffer, y :: samples => add x y :: addInto add buffer samples
  | buffer, _ => buffer

/-- Bring samples to the size of a buffer: cut off what is too many, fill up with a value. -/
def fit (size : Nat) (filler : σ) (samples : Buffer σ) : Buffer σ :=
  samples.take size ++ List.replicate (size - samples.length) filler

end Buffer

/-- The channels between a patch and the outside. -/
structure Bus (σ : Type) where
  inputs : List (Buffer σ)
  outputs : List (Buffer σ)
deriving Repr, Inhabited

namespace Bus

variable {σ : Type}

/-- A bus whose channels are silent. -/
def silent (zero : σ) (inputs outputs size : Nat) : Bus σ :=
  ⟨List.replicate inputs (Buffer.constant size zero),
    List.replicate outputs (Buffer.constant size zero)⟩

/-- Change the size of the buffers, which silences them. -/
def resize (zero : σ) (size : Nat) (bus : Bus σ) : Bus σ :=
  silent zero bus.inputs.length bus.outputs.length size

/-- Silence the outputs. -/
def clearOutputs (zero : σ) (bus : Bus σ) : Bus σ :=
  { bus with outputs := bus.outputs.map fun channel => Buffer.constant channel.length zero }

/-- Put one value on an input channel throughout. -/
def fillInput (bus : Bus σ) (channel : Nat) (value : σ) : Bus σ :=
  { bus with inputs := bus.inputs.modify channel fun buffer => Buffer.constant buffer.length value }

/-- Put samples on the input channels, the rest of each channel being silent. Channels for which
there are no samples keep what they hold. -/
def setInputs (zero : σ) (bus : Bus σ) (samples : List (Buffer σ)) : Bus σ :=
  { bus with
    inputs := bus.inputs.mapIdx fun channel buffer =>
      match samples[channel]? with
      | some given => Buffer.fit buffer.length zero given
      | none => buffer }

/-- Add samples to an output channel; a channel that does not exist takes nothing. -/
def addOutput (add : σ → σ → σ) (bus : Bus σ) (channel : Nat) (samples : Buffer σ) : Bus σ :=
  { bus with outputs := bus.outputs.modify channel fun buffer => buffer.addInto add samples }

end Bus

end Patchbay
