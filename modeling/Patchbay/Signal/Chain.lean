import Patchbay.Wiring
import Patchbay.Signal.Bus
import Patchbay.Signal.Order

/-!
# Signal chains

The boxes that take part in signal processing, in an order in which every box comes after those that
feed it. A block is computed by performing the boxes once each in that order. An inlet reads the
buffer of the outlet that feeds it, or the sum of several buffers, or silence.

A box that can work in place, and that alone reads the one buffer it is fed from, has no buffer of
its own: it changes that buffer, and those it feeds read it there.

What a box computes is a parameter, a `Processor`, and so is the arithmetic of samples.
-/

namespace Patchbay

/-- A box as far as signal processing is concerned. -/
structure SignalNode where
  id : Nat
  /-- Whether the box takes part at the current settings. -/
  ready : Bool
  /-- Whether the box can change the buffer it is fed from. -/
  inPlace : Bool
  inlets : Nat
  /-- For every outlet, whether it puts out a signal. -/
  outlets : List Bool
deriving DecidableEq, Repr, Inhabited

/-- The signal part of a patch: boxes by ascending number, and wires in the order of connecting. -/
structure SignalGraph where
  nodes : List SignalNode
  edges : List Connection
deriving Repr, Inhabited

namespace SignalGraph

/-- The boxes that take part. -/
def participants (graph : SignalGraph) : List SignalNode := graph.nodes.filter SignalNode.ready

/-- The wires between boxes that take part. -/
def wires (graph : SignalGraph) : List Connection :=
  let ids := graph.participants.map SignalNode.id
  graph.edges.filter fun edge => ids.contains edge.source && ids.contains edge.target

/-- The order of execution. -/
def order (graph : SignalGraph) : List Nat :=
  Order.execution (graph.participants.map SignalNode.id)
    (graph.wires.map fun edge => (edge.source, edge.target))

end SignalGraph

/-- Where a buffer stands: the place of a step in the chain, and an outlet of it. -/
structure Location where
  step : Nat
  outlet : Nat
deriving DecidableEq, Repr, Inhabited

/-- What an inlet reads. -/
inductive Feed where
  | silence
  | single (location : Location)
  | sum (locations : List Location)
deriving DecidableEq, Repr, Inhabited

/-- The place of one box in the chain. -/
structure Step where
  id : Nat
  /-- What every inlet reads. -/
  feeds : List Feed
  /-- The buffer that the box changes in place of writing one of its own. -/
  inPlace? : Option Location
  /-- For every outlet, whether it has a buffer. -/
  buffers : List Bool
deriving DecidableEq, Repr, Inhabited

/-- Why there is no chain. -/
inductive ChainError where
  | cycle (boxes : List Nat)
  | invalidSettings (sampleRate : Float32) (blockSize : Nat)
deriving Repr, Inhabited

/-- Steps in their order, with the buffers of each. Buffers keep their content between blocks. -/
structure Chain (σ : Type) where
  steps : List Step
  buffers : List (List (Buffer σ))
  blockSize : Nat
deriving Repr, Inhabited

namespace Chain

/-- The number of wires that leave an outlet. -/
def fanOut (wires : List Connection) (source outlet : Nat) : Nat :=
  wires.countP fun edge => edge.source == source && edge.outlet == outlet

/-- What is known about the boxes already in the chain: where the signal of each outlet is found. -/
abbrev Placement := Nat → Nat → Location

/-- The buffer that a box may change in place: it is fed by one wire only, which ends at its first
inlet and is the only one to leave its outlet, and it puts out one signal, at its first outlet. -/
def inPlaceSource? (wires : List Connection) (placed : Placement) (node : SignalNode) :
    Option Location :=
  match wires.filter fun edge => edge.target == node.id with
  | [edge] =>
    if node.inPlace && node.outlets.count true == 1 && node.outlets.head? == some true &&
        edge.inlet == 0 && fanOut wires edge.source edge.outlet == 1 then
      some (placed edge.source edge.outlet)
    else none
  | _ => none

/-- What an inlet reads, given the buffers it is fed from. -/
def feedOf : List Location → Feed
  | [] => .silence
  | [location] => .single location
  | locations => .sum locations

/-- The step of a box. -/
def stepOf (wires : List Connection) (placed : Placement) (node : SignalNode) : Step :=
  match inPlaceSource? wires placed node with
  | some location =>
    { id := node.id
      feeds := List.replicate node.inlets .silence
      inPlace? := some location
      buffers := node.outlets.map fun _ => false }
  | none =>
    let incoming := wires.filter fun edge => edge.target == node.id
    { id := node.id
      feeds := (List.range node.inlets).map fun inlet =>
        feedOf ((incoming.filter fun edge => edge.inlet == inlet).map
          fun edge => placed edge.source edge.outlet)
      inPlace? := none
      buffers := node.outlets }

/-- Where the outlets of a new step are found. -/
def place (placed : Placement) (place : Nat) (step : Step) : Placement := fun id outlet =>
  if id = step.id then
    match step.inPlace? with
    | some location => if outlet = 0 then location else ⟨place, outlet⟩
    | none => ⟨place, outlet⟩
  else placed id outlet

/-- The steps of boxes in their order, from a given place in the chain on. -/
def stepsFrom (wires : List Connection) : Nat → Placement → List SignalNode → List Step
  | _, _, [] => []
  | position, placed, node :: rest =>
    let step := stepOf wires placed node
    step :: stepsFrom wires (position + 1) (place placed position step) rest

/-- Decide whether a sample rate and a block size can be used. -/
def validSettings (sampleRate : Float32) (blockSize : Nat) : Bool :=
  blockSize != 0 && sampleRate.isFinite && sampleRate > 0.0

/-- The steps of a graph in their order, provided that it has no cycle. -/
def steps? (graph : SignalGraph) : Except ChainError (List Step) :=
  let order := graph.order
  if order.length = graph.participants.length then
    let nodes := order.filterMap fun id => graph.participants.find? fun node => node.id == id
    .ok (stepsFrom graph.wires 0 (fun _ _ => ⟨0, 0⟩) nodes)
  else
    .error <| .cycle <|
      (graph.participants.map SignalNode.id).filter fun id => !order.contains id

/-- The chain of a graph, with silent buffers. -/
def build {σ : Type} (zero : σ) (graph : SignalGraph) (sampleRate : Float32) (blockSize : Nat) :
    Except ChainError (Chain σ) :=
  if validSettings sampleRate blockSize then
    (steps? graph).map fun steps =>
      { steps
        buffers := steps.map fun step => step.buffers.map fun present =>
          Buffer.constant (if present then blockSize else 0) zero
        blockSize }
  else .error (.invalidSettings sampleRate blockSize)

variable {σ S : Type}

/-- The numbers of the boxes in their order. -/
def order (chain : Chain σ) : List Nat := chain.steps.map Step.id

/-- The boxes that work in place. -/
def inPlaceBoxes (chain : Chain σ) : List Nat :=
  (chain.steps.filter fun step => step.inPlace?.isSome).map Step.id

end Chain

/-- What a box reads during a block: for every inlet the buffer, if it is connected, and the input
channels of the bus. -/
structure Inputs (σ : Type) where
  inlets : List (Option (Buffer σ))
  channels : List (Buffer σ)
  blockSize : Nat
deriving Repr, Inhabited

/-- What a box writes during a block: a buffer for every outlet, and what it adds to output channels
of the bus, in order. -/
structure Outputs (σ : Type) where
  outlets : List (Buffer σ)
  channels : List (Nat × Buffer σ)
deriving Repr, Inhabited

/-- How boxes compute. The states of all boxes are one value. `perform` is given the buffers of the
outlets as they are, `performInPlace` the buffer to change; both are given the number of a box. -/
structure Processor (σ S : Type) where
  zero : σ
  /-- The sum of samples that meet at an inlet. -/
  mix : σ → σ → σ
  /-- The sum of samples that meet at an output channel. -/
  busMix : σ → σ → σ
  perform : S → Nat → Inputs σ → List (Buffer σ) → S × Outputs σ
  performInPlace : S → Nat → Buffer σ → S × Buffer σ

namespace Chain

variable {σ S : Type}

/-- The buffer at a location. -/
def bufferAt (buffers : List (List (Buffer σ))) (location : Location) : Buffer σ :=
  ((buffers[location.step]?.bind fun outlets => outlets[location.outlet]?)).getD []

/-- What an inlet reads, if it is connected. -/
def read (processor : Processor σ S) (blockSize : Nat) (buffers : List (List (Buffer σ))) :
    Feed → Option (Buffer σ)
  | .silence => none
  | .single location => some (bufferAt buffers location)
  | .sum locations =>
    some <| locations.foldl (fun sum location =>
      sum.addInto processor.mix (bufferAt buffers location))
      (Buffer.constant blockSize processor.zero)

/-- The state of a block under way: the states of the boxes, the buffers and the bus. -/
structure Flow (σ S : Type) where
  boxes : S
  buffers : List (List (Buffer σ))
  bus : Bus σ

/-- Perform the step at a place of the chain. -/
def performStep (processor : Processor σ S) (blockSize : Nat) (flow : Flow σ S) (place : Nat)
    (step : Step) : Flow σ S :=
  match step.inPlace? with
  | some location =>
    let (boxes, buffer) :=
      processor.performInPlace flow.boxes step.id (bufferAt flow.buffers location)
    { flow with
      boxes
      buffers :=
        flow.buffers.modify location.step fun outlets => outlets.set location.outlet buffer }
  | none =>
    let inputs : Inputs σ :=
      ⟨step.feeds.map (read processor blockSize flow.buffers), flow.bus.inputs, blockSize⟩
    let (boxes, outputs) :=
      processor.perform flow.boxes step.id inputs ((flow.buffers[place]?).getD [])
    { boxes
      buffers := flow.buffers.set place outputs.outlets
      bus := outputs.channels.foldl
        (fun bus channel => bus.addOutput processor.busMix channel.1 channel.2) flow.bus }

/-- Perform steps one after the other, from a given place on. -/
def performFrom (processor : Processor σ S) (blockSize : Nat) :
    Nat → List Step → Flow σ S → Flow σ S
  | _, [], flow => flow
  | place, step :: rest, flow =>
    performFrom processor blockSize (place + 1) rest
      (performStep processor blockSize flow place step)

/-- Compute one block. -/
def tick (processor : Processor σ S) (chain : Chain σ) (boxes : S) (bus : Bus σ) :
    Chain σ × S × Bus σ :=
  let flow := performFrom processor chain.blockSize 0 chain.steps
    ⟨boxes, chain.buffers, bus.clearOutputs processor.zero⟩
  ({ chain with buffers := flow.buffers }, flow.boxes, flow.bus)

end Chain

end Patchbay
