import Mathlib.Data.List.Basic
import Patchbay.Signal.Chain

/-!
# Signals as a dataflow

A block of signals, told without buffers and their places. Boxes are visited one after the other; each
visit performs its box once. What an inlet sees depends on the wires that end there and on what their
sources have produced in this same block, and on nothing else.

A box is told what stands in the buffers of its outlets before it writes over them. That is left open
here: a box may find anything there.
-/

namespace Patchbay

/-- What holds of every signal graph of a patch: each box has a number of its own, and wires lead from
outlets that put out a signal to inlets that exist. -/
structure SignalGraph.Sound (graph : SignalGraph) : Prop where
  nodup : (graph.nodes.map SignalNode.id).Nodup
  source : ∀ edge ∈ graph.edges, ∀ node ∈ graph.nodes, node.id = edge.source →
    node.outlets[edge.outlet]? = some true
  target : ∀ edge ∈ graph.edges, ∀ node ∈ graph.nodes, node.id = edge.target →
    edge.inlet < node.inlets

/-- The sizes of the buffers in a list. -/
def Buffer.sizes {σ : Type} (buffers : List (Buffer σ)) : List Nat := buffers.map List.length

/-- The sizes of the buffers that a box has for its outlets: those that put out a signal have one. -/
def SignalNode.sizes (node : SignalNode) (blockSize : Nat) : List Nat :=
  node.outlets.map fun signal => if signal then blockSize else 0

/-- Boxes write into the buffers that they are given; they change neither their number nor their
sizes. -/
structure Processor.KeepsSizes {σ S : Type} (processor : Processor σ S) : Prop where
  perform : ∀ boxes id inputs buffers,
    Buffer.sizes (processor.perform boxes id inputs buffers).2.outlets = Buffer.sizes buffers
  performInPlace : ∀ boxes id buffer,
    (processor.performInPlace boxes id buffer).2.length = buffer.length

namespace Dataflow

variable {σ S : Type}

/-- How far a block has come: the states of the boxes, what the outlets of the boxes visited so far
have produced in this block, and the bus. -/
structure Stage (σ S : Type) where
  boxes : S
  produced : Nat → Nat → Buffer σ
  bus : Bus σ

/-- The wires that end at an inlet, in the order of connecting. -/
def arriving (wires : List Connection) (id inlet : Nat) : List Connection :=
  wires.filter fun edge => edge.target == id && edge.inlet == inlet

/-- The sum of signals, sample by sample from the first to the last. -/
def total (processor : Processor σ S) (blockSize : Nat) (signals : List (Buffer σ)) : Buffer σ :=
  (List.range blockSize).map fun index =>
    (signals.filterMap fun signal => signal[index]?).foldl processor.mix processor.zero

/-- What comes of signals that meet: silence if there is none, a single one as it is, and otherwise the
sum. -/
def merge (processor : Processor σ S) (blockSize : Nat) : List (Buffer σ) → Option (Buffer σ)
  | [] => none
  | [signal] => some signal
  | signals => some (total processor blockSize signals)

/-- What an inlet sees: what comes of the signals that the sources of its wires have produced. -/
def seen (processor : Processor σ S) (blockSize : Nat) (wires : List Connection)
    (produced : Nat → Nat → Buffer σ) (id inlet : Nat) : Option (Buffer σ) :=
  merge processor blockSize <|
    (arriving wires id inlet).map fun edge => produced edge.source edge.outlet

/-- What a box is given in a block. -/
def inputs (processor : Processor σ S) (blockSize : Nat) (wires : List Connection)
    (node : SignalNode) (stage : Stage σ S) : Inputs σ :=
  ⟨(List.range node.inlets).map (seen processor blockSize wires stage.produced node.id),
    stage.bus.inputs, blockSize⟩

/-- Perform a box that finds the given buffers at its outlets. -/
def perform (processor : Processor σ S) (blockSize : Nat) (wires : List Connection)
    (node : SignalNode) (found : List (Buffer σ)) (stage : Stage σ S) : Stage σ S :=
  let (boxes, outputs) := processor.perform stage.boxes node.id
    (inputs processor blockSize wires node stage) found
  { boxes
    produced := fun id outlet =>
      if id = node.id then (outputs.outlets[outlet]?).getD [] else stage.produced id outlet
    bus := outputs.channels.foldl
      (fun bus channel => bus.addOutput processor.busMix channel.1 channel.2) stage.bus }

/-- Perform a box in place, on what its first inlet sees. -/
def performInPlace (processor : Processor σ S) (node : SignalNode) (signal : Buffer σ)
    (stage : Stage σ S) : Stage σ S :=
  let (boxes, buffer) := processor.performInPlace stage.boxes node.id signal
  { stage with
    boxes
    produced := fun id outlet =>
      if id = node.id then if outlet = 0 then buffer else [] else stage.produced id outlet }

/-- One visit of a box. It is performed in place only if it can be, and if nothing but its first inlet
sees a signal. -/
inductive Visit (processor : Processor σ S) (blockSize : Nat) (wires : List Connection)
    (node : SignalNode) (stage : Stage σ S) : Stage σ S → Prop where
  | performed (found : List (Buffer σ)) (hsizes : Buffer.sizes found = node.sizes blockSize) :
    Visit processor blockSize wires node stage
      (perform processor blockSize wires node found stage)
  | inPlace (signal : Buffer σ) (hable : node.inPlace = true)
      (hfirst : seen processor blockSize wires stage.produced node.id 0 = some signal)
      (hothers : ∀ inlet, inlet ≠ 0 →
        seen processor blockSize wires stage.produced node.id inlet = none) :
    Visit processor blockSize wires node stage (performInPlace processor node signal stage)

/-- Visits of boxes one after the other. -/
inductive Visits (processor : Processor σ S) (blockSize : Nat) (wires : List Connection) :
    List SignalNode → Stage σ S → Stage σ S → Prop where
  | nil (stage : Stage σ S) : Visits processor blockSize wires [] stage stage
  | cons {node : SignalNode} {rest : List SignalNode} {stage next last : Stage σ S}
      (hvisit : Visit processor blockSize wires node stage next)
      (hrest : Visits processor blockSize wires rest next last) :
    Visits processor blockSize wires (node :: rest) stage last

/-- One block: from silent outputs, and before anything has been produced, every box that takes part is
visited once, after all boxes that feed it. -/
structure Block (processor : Processor σ S) (blockSize : Nat) (graph : SignalGraph)
    (order : List SignalNode) (boxes : S) (bus : Bus σ) (after : S × Bus σ) : Prop where
  perm : order.Perm graph.participants
  ordered : ∀ before node rest, order = before ++ node :: rest →
    ∀ edge ∈ graph.wires, edge.target = node.id → edge.source ∈ before.map SignalNode.id
  visits : ∃ produced, Visits processor blockSize graph.wires order
    ⟨boxes, fun _ _ => [], bus.clearOutputs processor.zero⟩ ⟨after.1, produced, after.2⟩

end Dataflow

/-- Adding samples into a buffer adds to every sample that has a counterpart. -/
theorem Buffer.getElem?_addInto {σ : Type} (add : σ → σ → σ) (buffer samples : Buffer σ)
    (index : Nat) :
    (buffer.addInto add samples)[index]? =
      buffer[index]?.map fun x => (samples[index]?.map (add x)).getD x := by
  induction buffer generalizing samples index with
  | nil => simp [addInto]
  | cons x buffer ih =>
    cases samples with
    | nil => cases h : (x :: buffer)[index]? <;> simp [addInto, h]
    | cons y samples =>
      cases index with
      | zero => simp [addInto]
      | succ index => simpa [addInto] using ih samples index

/-- A buffer keeps its size when samples are added. -/
theorem Buffer.length_addInto {σ : Type} (add : σ → σ → σ) (buffer samples : Buffer σ) :
    (buffer.addInto add samples).length = buffer.length := by
  induction buffer generalizing samples with
  | nil => simp [addInto]
  | cons x buffer ih => cases samples <;> simp [addInto, ih]

/-- Every sample of signals added one after the other is the sum of their samples at its index. -/
theorem Buffer.getElem?_foldl_addInto {σ : Type} (add : σ → σ → σ) (buffer : Buffer σ)
    (signals : List (Buffer σ)) (index : Nat) :
    (signals.foldl (fun sum signal => sum.addInto add signal) buffer)[index]? =
      buffer[index]?.map fun x => (signals.filterMap fun signal => signal[index]?).foldl add x := by
  induction signals generalizing buffer with
  | nil => simp
  | cons signal rest ih =>
    rw [List.foldl_cons, ih, getElem?_addInto, Option.map_map]
    congr 1
    funext x
    cases h : signal[index]? <;> simp [h]

/-- Adding signals one after the other into a silent buffer gives their sum. -/
theorem Dataflow.foldl_addInto_eq_total {σ S : Type} (processor : Processor σ S) (blockSize : Nat)
    (signals : List (Buffer σ)) :
    signals.foldl (fun sum signal => sum.addInto processor.mix signal)
      (Buffer.constant blockSize processor.zero) = total processor blockSize signals := by
  apply List.ext_getElem?
  intro index
  rw [Buffer.getElem?_foldl_addInto]
  by_cases h : index < blockSize <;> simp [Buffer.constant, total, h]

end Patchbay
