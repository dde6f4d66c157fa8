import Patchbay.Patch.Basic

/-!
# Running a patch

Starting and stopping signal processing, and computing blocks. A start that finds a cycle is
reported, but the patch runs all the same, in silence, until the cycle is broken.
-/

namespace Patchbay

/-- How the boxes of a patch compute. The state of a box is found by its number. -/
def Machine.processor : Processor Sample (List Box) where
  zero := .zero
  mix := Sample.add
  busMix := Sample.add
  perform := fun boxes id inputs buffers =>
    match boxes.find? fun box => box.id == id with
    | none => (boxes, ⟨buffers, []⟩)
    | some box =>
      let (machine, outputs) := box.machine.perform inputs buffers
      (boxes.map fun other => if other.id = id then { other with machine } else other, outputs)
  performInPlace := fun boxes id buffer =>
    match boxes.find? fun box => box.id == id with
    | none => (boxes, buffer)
    | some box =>
      let (machine, buffer) := box.machine.performInPlace buffer
      (boxes.map fun other => if other.id = id then { other with machine } else other, buffer)

namespace Patch

/-- Set the numbers of channels, which silences them. -/
def setChannels (patch : Patch) (inputs outputs : Nat) : Patch :=
  { patch with
    engine := { patch.engine with bus := Bus.silent .zero inputs outputs patch.engine.blockSize } }

/-- Set how deeply deliveries may nest, at least once. -/
def setDepthLimit (patch : Patch) (limit : Nat) : Patch := { patch with depthLimit := max limit 1 }

/-- Stop signal processing, and release the boxes in the chain. -/
def stop (patch : Patch) : Patch :=
  if patch.engine.running then
    let order := match patch.engine.chain? with
      | some chain => chain.order
      | none => []
    { patch with
      boxes := patch.boxes.map fun box =>
        if order.contains box.id then { box with machine := box.machine.release } else box
      engine := { patch.engine with
        running := false
        bus := patch.engine.bus.clearOutputs .zero
        chain? := none } }
  else patch

/-- Start signal processing, after stopping it if it runs. -/
def start (patch : Patch) (sampleRate : Float32) (blockSize : Nat) : Patch × Option PatchError :=
  if Chain.validSettings sampleRate blockSize then
    let stopped := patch.stop
    let started := { stopped with
      engine := { stopped.engine with
        running := true
        sampleRate
        blockSize
        bus := stopped.engine.bus.resize .zero blockSize
        chain? := none } }
    (started.rebuild.1, started.rebuild.2.map .chain)
  else (patch, some (.chain (.invalidSettings sampleRate blockSize)))

/-- Compute a block with what is on the input channels. -/
def runBlock (processor : Processor Sample (List Box)) (patch : Patch) : Patch :=
  match patch.engine.chain? with
  | some chain =>
    let (chain, boxes, bus) := chain.tick processor patch.boxes patch.engine.bus
    { patch with boxes, engine := { patch.engine with chain? := some chain, bus } }
  | none =>
    { patch with
      engine := { patch.engine with bus := patch.engine.bus.clearOutputs processor.zero } }

/-- Compute a block if signal processing runs, and tell whether it does. -/
def tick (processor : Processor Sample (List Box)) (patch : Patch) : Patch × Bool :=
  if patch.engine.running then (patch.runBlock processor, true) else (patch, false)

/-- Compute a block with the given samples on the input channels, and give out samples for buffers
of the given sizes, one for each output channel. Where there are none the buffers are silent. -/
def process (processor : Processor Sample (List Box)) (patch : Patch)
    (inputs : List (Buffer Sample)) (sizes : List Nat) :
    Patch × Bool × List (Buffer Sample) :=
  if patch.engine.running then
    let fed := { patch with
      engine := { patch.engine with bus := patch.engine.bus.setInputs processor.zero inputs } }
    let played := fed.runBlock processor
    (played, true, (sizes.zipIdx).map fun (size, channel) =>
      Buffer.fit size processor.zero (played.engine.bus.outputs[channel]?.getD []))
  else (patch, false, sizes.map fun size => Buffer.constant size processor.zero)

/-- The numbers of input and output channels. -/
def channels (patch : Patch) : Nat × Nat :=
  (patch.engine.bus.inputs.length, patch.engine.bus.outputs.length)

/-- The order of execution, if there is a chain. -/
def chainOrder? (patch : Patch) : Option (List Nat) := patch.engine.chain?.map Chain.order

/-- The boxes that work in place. -/
def inPlaceBoxes (patch : Patch) : List Nat :=
  (patch.engine.chain?.map Chain.inPlaceBoxes).getD []

end Patch

end Patchbay
