import Patchbay.Number.Notation
import Patchbay.Signal.Chain

/-!
# Errors of a patch

Why an operation on a patch is refused, and how each reason reads.
-/

namespace Patchbay

/-- The text of a list of numbers, each in a frame. -/
def ChainError.boxList (boxes : List Nat) : String :=
  String.ofList ('[' :: ", ".toList.intercalate
    (boxes.map fun id => "BoxId(".toList ++ Numeral.nat id ++ [')']) ++ [']'])

/-- How the reason reads. -/
def ChainError.message : ChainError → String
  | .cycle boxes => "signal graph contains a cycle through boxes " ++ boxList boxes
  | .invalidSettings sampleRate blockSize =>
    "invalid DSP settings: sample rate " ++ String.ofList (Numeral.single sampleRate) ++
      ", block size " ++ String.ofList (Numeral.nat blockSize)

/-- Why an operation on a patch is refused. -/
inductive PatchError where
  | unknownObject (name : String)
  | emptyDescription
  | construction (name reason : String)
  | boxNotFound (id : Nat)
  | noSuchInlet (id inlet : Nat)
  | noSuchOutlet (id outlet : Nat)
  | incompatibleKinds (source outlet target inlet : Nat)
  | duplicateConnection (source outlet target inlet : Nat)
  | selfConnection (id : Nat)
  | connectionNotFound (source outlet target inlet : Nat)
  | signalOnlyInlet (id inlet : Nat)
  | chain (error : ChainError)
deriving Repr, Inhabited

namespace PatchError

/-- How the reason reads. -/
def message : PatchError → String
  | unknownObject name => s!"no such object: {name}"
  | emptyDescription => "empty box description"
  | construction name reason => s!"cannot create '{name}': {reason}"
  | boxNotFound id => s!"box {id} not found"
  | noSuchInlet id inlet => s!"box {id} has no inlet {inlet}"
  | noSuchOutlet id outlet => s!"box {id} has no outlet {outlet}"
  | incompatibleKinds source outlet target inlet =>
    s!"cannot connect {source}:{outlet} to {target}:{inlet}: incompatible port kinds"
  | duplicateConnection source outlet target inlet =>
    s!"connection {source}:{outlet} -> {target}:{inlet} already exists"
  | selfConnection id => s!"cannot connect box {id} to itself"
  | connectionNotFound source outlet target inlet =>
    s!"connection {source}:{outlet} -> {target}:{inlet} not found"
  | signalOnlyInlet id inlet => s!"inlet {inlet} of box {id} does not accept messages"
  | chain error => error.message

end PatchError

end Patchbay
