import Patchbay.Proofs.Signal.Refinement

/-!
# A block as one sweep

The dataflow leaves open what a box finds in the buffers of its outlets, and whether it is performed in
place. If boxes do the same whatever they find, nothing of a block is left open: a chain computes what
one sweep over the schedule does, in which every box is visited once and finds its buffers silent.
-/

namespace Patchbay

variable {σ S : Type}

/-- The buffers of a box's outlets while they are silent. -/
def SignalNode.blank (node : SignalNode) (zero : σ) (size : Nat) : List (Buffer σ) :=
  (node.sizes size).map fun size => Buffer.constant size zero

/-- Silent buffers have the sizes that they should. -/
theorem SignalNode.sizes_blank (node : SignalNode) (zero : σ) (size : Nat) :
    Buffer.sizes (node.blank zero size) = node.sizes size := by
  rw [Buffer.sizes, blank, List.map_map]
  refine (List.map_congr_left fun size _ => ?_).trans (List.map_id _)
  exact List.length_replicate

/-- A box does the same whatever it finds in the buffers of its outlets, and leaves good states good. -/
structure Processor.Oblivious (processor : Processor σ S) (blockSize : Nat) (good : S → Prop)
    (node : SignalNode) : Prop where
  perform_eq : ∀ boxes inputs found other, good boxes → inputs.Sized blockSize →
    Buffer.sizes found = node.sizes blockSize → Buffer.sizes other = node.sizes blockSize →
    processor.perform boxes node.id inputs found = processor.perform boxes node.id inputs other
  perform_good : ∀ boxes inputs found, good boxes →
    good (processor.perform boxes node.id inputs found).1

namespace SignalGraph

variable {graph : SignalGraph}

/-- A graph stays sound if no box can work in place. -/
theorem Sound.apart (h : graph.Sound) : graph.apart.Sound where
  nodup := by
    have hids : graph.apart.nodes.map SignalNode.id = graph.nodes.map SignalNode.id := by
      rw [SignalGraph.apart, List.map_map]
      rfl
    rw [hids]
    exact h.nodup
  source edge hedge node hnode := by
    obtain ⟨original, horiginal, rfl⟩ := List.mem_map.mp hnode
    exact h.source edge hedge original horiginal
  target edge hedge node hnode := by
    obtain ⟨original, horiginal, rfl⟩ := List.mem_map.mp hnode
    exact h.target edge hedge original horiginal

/-- The boxes that are scheduled then are those that are scheduled otherwise. -/
theorem exists_of_mem_schedule_apart (graph : SignalGraph) {node : SignalNode}
    (h : node ∈ graph.apart.schedule) : ∃ original ∈ graph.schedule, original.apart = node := by
  rw [graph.schedule_apart] at h
  exact List.mem_map.mp h

end SignalGraph

namespace Dataflow

variable {processor : Processor σ S} {wires : List Connection} {blockSize : Nat}

/-- Visit a box whose buffers are silent. -/
def visit (processor : Processor σ S) (size : Nat) (wires : List Connection) (stage : Stage σ S)
    (node : SignalNode) : Stage σ S :=
  perform processor size wires node (node.blank processor.zero size) stage

/-- Visit boxes one after the other. -/
def sweep (processor : Processor σ S) (size : Nat) (wires : List Connection)
    (nodes : List SignalNode) (stage : Stage σ S) : Stage σ S :=
  nodes.foldl (visit processor size wires) stage

/-- The signals that a box has produced fill a block. -/
theorem length_produced_visit (hkeeps : processor.KeepsSizes) (stage : Stage σ S)
    {node : SignalNode} {outlet : Nat} (hsignal : node.outlets[outlet]? = some true) :
    ((visit processor blockSize wires stage node).produced node.id outlet).length = blockSize := by
  have hsizes := hkeeps.perform stage.boxes node.id
    (inputs processor blockSize wires node stage) (node.blank processor.zero blockSize)
  rw [node.sizes_blank] at hsizes
  have hat := congrArg (fun sizes => sizes[outlet]?) hsizes
  simp only [Buffer.sizes, SignalNode.sizes, List.getElem?_map, hsignal, Option.map_some,
    if_true] at hat
  obtain ⟨buffer, hbuffer, hlength⟩ := Option.map_eq_some_iff.mp hat
  simp only [visit, perform, if_true, hbuffer, Option.getD_some, hlength]

/-- Visits of boxes that do the same whatever they find are one sweep, if none is in place. -/
theorem Visits.eq_sweep (hkeeps : processor.KeepsSizes) {good : S → Prop} {nodes : List SignalNode}
    {stage last : Stage σ S} (h : Visits processor blockSize wires nodes stage last)
    (hapart : ∀ node ∈ nodes, node.inPlace = false)
    (hoblivious : ∀ node ∈ nodes, processor.Oblivious blockSize good node) {visited : List Nat}
    (hnext : ∀ before node after, nodes = before ++ node :: after →
      Chain.Next wires (visited ++ before.map SignalNode.id) node)
    (hgood : good stage.boxes) (hbus : stage.bus.Fed blockSize)
    (hproduced : ∀ edge ∈ wires, edge.source ∈ visited →
      (stage.produced edge.source edge.outlet).length = blockSize) :
    last = sweep processor blockSize wires nodes stage := by
  -- The induction is on the visits; what has been produced so far comes in whole blocks.
  induction h generalizing visited with
  | nil stage => rfl
  | @cons node rest stage next last hvisit hrest ih =>
    have hfirst : Chain.Next wires visited node := by simpa using hnext [] node rest rfl
    have hobliviousFirst := hoblivious node List.mem_cons_self
    have hinputs : (inputs processor blockSize wires node stage).Sized blockSize :=
      inputs_sized (fun edge hedge htarget =>
        hproduced edge hedge (hfirst.fed edge hedge htarget)) hbus
    have hsame : next = visit processor blockSize wires stage node := by
      cases hvisit with
      | performed found hsizes =>
        have hequal := hobliviousFirst.perform_eq stage.boxes _ found
          (node.blank processor.zero blockSize) hgood hinputs hsizes (node.sizes_blank _ _)
        simp only [visit, perform, hequal]
      | inPlace signal hable =>
        rw [hapart node List.mem_cons_self] at hable
        cases hable
    rw [sweep, List.foldl_cons, ← sweep, ← hsame]
    have hrestNext : ∀ before other after, rest = before ++ other :: after →
        Chain.Next wires (visited ++ [node.id] ++ before.map SignalNode.id) other := by
      intro before other after heq
      simpa using hnext (node :: before) other after (by rw [heq, List.cons_append])
    refine ih (fun other hmem => hapart other (List.mem_cons_of_mem node hmem))
      (fun other hmem => hoblivious other (List.mem_cons_of_mem node hmem)) hrestNext ?_ ?_
      (fun edge hedge hsource => ?_)
    · rw [hsame]
      exact hobliviousFirst.perform_good _ _ _ hgood
    · rw [hsame]
      simpa only [visit, perform, Bus.Fed, Chain.inputs_foldl_addOutput] using hbus
    · rw [hsame]
      by_cases heq : edge.source = node.id
      · rw [heq]
        exact length_produced_visit hkeeps stage (hfirst.signal edge hedge heq)
      · simp only [visit, perform, heq, if_false]
        refine hproduced edge hedge ?_
        simpa [heq] using hsource

/-- A block of boxes in their order: what they make of samples on the input channels, as their states and
what is left on a number of output channels. -/
def block (processor : Processor σ S) (wires : List Connection) (nodes : List SignalNode)
    (outputs size : Nat) (boxes : S) (fed : List (Buffer σ)) : S × List (Buffer σ) :=
  let last := sweep processor size wires nodes ⟨boxes, fun _ _ => [],
    ⟨fed, List.replicate outputs (Buffer.constant size processor.zero)⟩⟩
  (last.boxes, last.bus.outputs)

/-- A sweep leaves the input channels as they are. -/
theorem inputs_sweep (nodes : List SignalNode) (stage : Stage σ S) :
    (sweep processor blockSize wires nodes stage).bus.inputs = stage.bus.inputs := by
  induction nodes generalizing stage with
  | nil => rfl
  | cons node nodes ih =>
    rw [sweep, List.foldl_cons, ← sweep, ih]
    exact Chain.inputs_foldl_addOutput _ _ _

/-- All that can be said of the sizes of output channels is kept when samples are added. -/
theorem sizes_foldl_addOutput (add : σ → σ → σ) (channels : List (Nat × Buffer σ)) (bus : Bus σ) :
    Buffer.sizes (channels.foldl (fun bus channel => bus.addOutput add channel.1 channel.2)
      bus).outputs = Buffer.sizes bus.outputs := by
  induction channels generalizing bus with
  | nil => rfl
  | cons channel channels ih =>
    rw [List.foldl_cons, ih]
    apply List.ext_getElem?
    intro index
    simp only [Buffer.sizes, Bus.addOutput, List.getElem?_map, List.getElem?_modify,
      Option.map_eq_map, Option.map_map]
    congr 1
    funext buffer
    simp only [Function.comp_apply]
    split
    · exact Buffer.length_addInto add buffer channel.2
    · rfl

/-- A sweep leaves the output channels at their sizes. -/
theorem sizes_sweep (nodes : List SignalNode) (stage : Stage σ S) :
    Buffer.sizes (sweep processor blockSize wires nodes stage).bus.outputs =
      Buffer.sizes stage.bus.outputs := by
  induction nodes generalizing stage with
  | nil => rfl
  | cons node nodes ih =>
    rw [sweep, List.foldl_cons, ← sweep, ih]
    exact sizes_foldl_addOutput _ _ _

/-- A block gives a block of samples for every output channel. -/
theorem sizes_block (nodes : List SignalNode) (outputs size : Nat) (boxes : S)
    (fed : List (Buffer σ)) :
    Buffer.sizes (block processor wires nodes outputs size boxes fed).2 =
      List.replicate outputs size := by
  rw [block, sizes_sweep, Buffer.sizes, List.map_replicate, Buffer.constant, List.length_replicate]

end Dataflow

namespace Chain

open Dataflow

variable {processor : Processor σ S} {graph : SignalGraph} {good : S → Prop}

/-- A chain beside one without boxes in place computes one sweep over the schedule, if all boxes do the
same whatever they find at their outlets. -/
theorem Beside.tick_eq_sweep {chain apart : Chain σ} (h : Beside graph chain apart)
    (hsound : graph.Sound) (hkeeps : processor.KeepsSizes)
    (hshares : processor.SharesBuffers chain.blockSize good graph chain.inPlaceBoxes)
    (hoblivious : ∀ node ∈ graph.participants, processor.Oblivious chain.blockSize good node)
    {boxes : S} {bus : Bus σ} (hgood : good boxes) (hbus : bus.Fed chain.blockSize) :
    ∃ produced, sweep processor chain.blockSize graph.wires graph.schedule
        ⟨boxes, fun _ _ => [], bus.clearOutputs processor.zero⟩ =
      ⟨(chain.tick processor boxes bus).2.1, produced, (chain.tick processor boxes bus).2.2⟩ := by
  obtain ⟨produced, hvisits⟩ := (h.separate.block hsound.apart hkeeps boxes bus).visits
  rw [h.size, graph.wires_apart, ← (h.tick hsound hkeeps hshares hgood hbus).1] at hvisits
  have hnext : ∀ before node after, graph.apart.schedule = before ++ node :: after →
      Next graph.wires ([] ++ before.map SignalNode.id) node := by
    intro before node after heq
    simpa [graph.wires_apart] using hsound.apart.next heq
  have hlast := hvisits.eq_sweep hkeeps (fun node hnode => ?_) (fun node hnode => ?_) hnext hgood hbus
    (fun _ _ hsource => absurd hsource List.not_mem_nil)
  · rw [graph.schedule_apart, sweep, List.foldl_map] at hlast
    exact ⟨produced, hlast.symm⟩
  · obtain ⟨original, -, rfl⟩ := graph.exists_of_mem_schedule_apart hnode
    rfl
  · obtain ⟨original, horiginal, rfl⟩ := graph.exists_of_mem_schedule_apart hnode
    have hsame := hoblivious original (graph.schedule_subset horiginal)
    exact ⟨hsame.perform_eq, hsame.perform_good⟩

end Chain

end Patchbay
