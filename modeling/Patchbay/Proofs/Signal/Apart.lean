import Patchbay.Proofs.Signal.InPlace

/-!
# Chains with and without boxes in place

Beside the chain of a graph there is the chain of the graph in which no box can work in place. Block
after block both leave the boxes in the same state and put the same samples on the bus, as far as the
boxes that work in place keep to the laws.
-/

namespace Patchbay

namespace SignalGraph

variable (graph : SignalGraph)

/-- The same boxes take part. -/
theorem participants_apart :
    graph.apart.participants = graph.participants.map SignalNode.apart := by
  simp only [participants, apart, List.filter_map]
  rfl

/-- The same wires count. -/
theorem wires_apart : graph.apart.wires = graph.wires := by
  have hids : graph.apart.participants.map SignalNode.id =
      graph.participants.map SignalNode.id := by
    rw [participants_apart, List.map_map]
    rfl
  simp only [wires, hids]
  rfl

/-- The order is the same. -/
theorem order_apart : graph.apart.order = graph.order := by
  rw [order, wires_apart, participants_apart, List.map_map]
  rfl

/-- The boxes are scheduled alike. -/
theorem schedule_apart : graph.apart.schedule = graph.schedule.map SignalNode.apart := by
  simp only [schedule, order_apart, participants_apart, List.find?_map, List.map_filterMap]
  rfl

end SignalGraph

namespace Chain

open Dataflow

variable {σ S : Type} {processor : Processor σ S} {graph : SignalGraph} {wires : List Connection}
  {blockSize : Nat}

/-- A step changes a buffer in place exactly if its box takes one over. -/
theorem isSome_inPlace?_stepOf (placed : Placement) (node : SignalNode) :
    (stepOf wires placed node).inPlace?.isSome = true ↔ ∃ edge, TakesOver wires node edge := by
  by_cases htakes : ∃ edge, TakesOver wires node edge
  · obtain ⟨edge, hedge⟩ := htakes
    simp only [hedge.stepOf_eq placed, Option.isSome_some, true_iff]
    exact ⟨edge, hedge⟩
  · simp only [htakes, iff_false]
    rw [stepOf_of_not_takesOver placed fun edge hedge => htakes ⟨edge, hedge⟩]
    simp

/-- The steps that change a buffer in place are those of the boxes that take one over. -/
theorem mem_inPlace_stepsFrom (position : Nat) (placed : Placement) (nodes : List SignalNode)
    (id : Nat) :
    id ∈ ((stepsFrom wires position placed nodes).filter fun step =>
        step.inPlace?.isSome).map Step.id ↔
      ∃ node ∈ nodes, node.id = id ∧ ∃ edge, TakesOver wires node edge := by
  induction nodes generalizing position placed with
  | nil => simp [stepsFrom]
  | cons node rest ih =>
    have hrest := ih (position + 1) (place placed position (stepOf wires placed node))
    rw [stepsFrom, List.filter_cons]
    split
    · next hsome =>
      have htakes := (isSome_inPlace?_stepOf placed node).mp hsome
      rw [List.map_cons, List.mem_cons, hrest, stepOf_id, List.exists_mem_cons_iff]
      exact or_congr_left ⟨fun heq => ⟨heq.symm, htakes⟩, fun h => h.1.symm⟩
    · next hsome =>
      have hnot : ¬ ∃ edge, TakesOver wires node edge :=
        fun htakes => hsome ((isSome_inPlace?_stepOf placed node).mpr htakes)
      rw [hrest, List.exists_mem_cons_iff]
      simp only [hnot, and_false, false_or]

/-- The buffers of a step are made for the outlets of its box, if that takes over no buffer. -/
theorem buffers_getElem?_stepsFrom (position : Nat) (placed : Placement) {nodes : List SignalNode}
    {index : Nat} {node : SignalNode} (hnode : nodes[index]? = some node)
    (hnot : ∀ edge, ¬ TakesOver wires node edge) :
    (stepsFrom wires position placed nodes)[index]?.map Step.buffers = some node.outlets := by
  induction nodes generalizing position placed index with
  | nil => simp at hnode
  | cons first rest ih =>
    cases index with
    | zero =>
      obtain rfl : first = node := by simpa using hnode
      simp [stepsFrom, stepOf_of_not_takesOver placed hnot]
    | succ index => exact ih _ _ (by simpa using hnode)

/-- Adding to the output channels leaves the input channels as they are. -/
theorem inputs_foldl_addOutput (add : σ → σ → σ) (bus : Bus σ) (channels : List (Nat × Buffer σ)) :
    (channels.foldl (fun bus channel => bus.addOutput add channel.1 channel.2) bus).inputs =
      bus.inputs := by
  induction channels generalizing bus with
  | nil => rfl
  | cons channel rest ih => exact ih _

/-- What the boxes of a schedule are promised to do, so that those of them that take over a buffer can
do so without a difference. -/
structure Lawful (processor : Processor σ S) (wires : List Connection) (blockSize : Nat)
    (good : S → Prop) (nodes : List SignalNode) : Prop where
  perform_good : ∀ node ∈ nodes, ∀ boxes inputs found, good boxes →
    good (processor.perform boxes node.id inputs found).1
  performInPlace_good : ∀ node ∈ nodes, ∀ boxes signal, good boxes →
    good (processor.performInPlace boxes node.id signal).1
  inPlace : ∀ node ∈ nodes, ∀ edge, TakesOver wires node edge →
    0 < node.inlets ∧ processor.PerformsInPlace blockSize good node
  overwrites : ∀ node ∈ nodes, ∀ outlet, Overtaken wires nodes node.id outlet →
    processor.Overwrites blockSize good node outlet

/-- Two chains perform the boxes of a schedule alike, one with shared buffers and one without. -/
theorem Twins.performFrom {nodes : List SignalNode} {good : S → Prop}
    (hlawful : Lawful processor wires blockSize good nodes) (hkeeps : processor.KeepsSizes)
    {rest done : List SignalNode} (hnodes : nodes = done ++ rest)
    (hnext : ∀ before node after, nodes = before ++ node :: after →
      Next wires (before.map SignalNode.id) node)
    {placed placedApart : Placement} {flow flowApart : Flow σ S} {stage : Stage σ S}
    (h : Twins wires blockSize nodes (done.map SignalNode.id) placed placedApart flow flowApart
      stage)
    (hsizes : (flow.buffers.map Buffer.sizes).drop done.length =
      (stepsFrom wires done.length placed rest).map fun step => step.sizes blockSize)
    (hsizesApart : (flowApart.buffers.map Buffer.sizes).drop done.length =
      (stepsFrom wires done.length placedApart (rest.map SignalNode.apart)).map fun step =>
        step.sizes blockSize)
    (hgood : good stage.boxes) (hbus : stage.bus.Fed blockSize) :
    ∃ placed' placedApart' last,
      Twins wires blockSize nodes (nodes.map SignalNode.id) placed' placedApart'
        (performFrom processor blockSize done.length
          (stepsFrom wires done.length placed rest) flow)
        (performFrom processor blockSize done.length
          (stepsFrom wires done.length placedApart (rest.map SignalNode.apart)) flowApart) last ∧
      good last.boxes ∧ last.bus.Fed blockSize := by
  -- The induction is on the boxes still to come; both chains have performed those that are done.
  induction rest generalizing done placed placedApart flow flowApart stage with
  | nil =>
    rw [List.append_nil] at hnodes
    subst hnodes
    exact ⟨placed, placedApart, stage, h, hgood, hbus⟩
  | cons node rest ih =>
    have hlength : (done.map SignalNode.id).length = done.length := List.length_map _
    have hnode : nodes[(done.map SignalNode.id).length]? = some node := by simp [hnodes]
    have hmem : node ∈ nodes := List.mem_of_getElem? hnode
    have hfirst := hnext done node rest hnodes
    have hrestSizes := sizes_rest hkeeps hsizes
    have hrestSizesApart := sizes_rest hkeeps hsizesApart
    obtain ⟨other, hother, hotherSizes⟩ := exists_found hsizesApart (not_takesOver_apart node)
    have hend : done ++ node :: rest = (done ++ [node]) ++ rest := by simp
    have hdone : (done ++ [node]).map SignalNode.id = done.map SignalNode.id ++ [node.id] := by simp
    have hlengthDone : (done ++ [node]).length = done.length + 1 := by simp
    rw [← hlengthDone] at hrestSizes hrestSizesApart
    by_cases htakes : ∃ edge, TakesOver wires node edge
    · obtain ⟨edge, hedge⟩ := htakes
      obtain ⟨hinlet, hlaw⟩ := hlawful.inPlace node hmem edge hedge
      have hstep := h.tookOver hnode hfirst hedge hinlet hkeeps hgood hbus hlaw
        (by rwa [hlength]) hotherSizes
      rw [hlength, ← hdone] at hstep
      have hrest := ih (hnodes.trans hend) hstep hrestSizes hrestSizesApart
        (hlawful.performInPlace_good node hmem _ _ hgood) hbus
      rwa [hlengthDone] at hrest
    · have hnot : ∀ edge, ¬ TakesOver wires node edge := fun edge hedge => htakes ⟨edge, hedge⟩
      obtain ⟨found, hfound, hfoundSizes⟩ := exists_found hsizes hnot
      have hstep := h.performed hnode hfirst hnot hkeeps hgood hbus (hlawful.overwrites node hmem)
        (by rwa [hlength]) hfoundSizes (by rwa [hlength]) hotherSizes
      rw [hlength, ← hdone] at hstep
      have hrest := ih (hnodes.trans hend) hstep hrestSizes hrestSizesApart
        (hlawful.perform_good node hmem _ _ _ hgood)
        (by simpa only [Dataflow.perform, Bus.Fed, inputs_foldl_addOutput] using hbus)
      rwa [hlengthDone] at hrest

/-- Before the first visit two chains are twins if they have the same in the buffers that are not taken
over. -/
theorem twins_start {nodes : List SignalNode} (placed placedApart : Placement)
    {flow flowApart : Flow σ S} (hboxes : flowApart.boxes = flow.boxes)
    (hbus : flowApart.bus = flow.bus) (halike : Alike wires nodes flow.buffers flowApart.buffers)
    (produced : Nat → Nat → Buffer σ) :
    Twins wires blockSize nodes [] placed placedApart flow flowApart
      ⟨flow.boxes, produced, flow.bus⟩ where
  shared := tracks_start wires blockSize placed flow produced
  apart := by
    rw [← hboxes, ← hbus]
    exact tracks_start wires blockSize placedApart flowApart produced
  rooted _ h := absurd h.2.1 List.not_mem_nil
  alike := halike

end Chain

end Patchbay
