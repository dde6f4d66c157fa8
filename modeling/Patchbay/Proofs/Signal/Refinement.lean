import Patchbay.Proofs.Signal.Apart

/-!
# Chains refine the dataflow

What can be said of a chain from its building on, over all blocks that it computes: every block is one
of the dataflow of its graph, and working in place makes no difference to what is put on the bus.
-/

namespace Patchbay.Chain

open Dataflow

variable {σ S : Type} {processor : Processor σ S} {graph : SignalGraph} {blockSize : Nat}
  {good : S → Prop}

/-- A chain names a scheduled box among those that work in place exactly if it takes over a buffer. -/
theorem Plays.mem_inPlaceBoxes_iff {chain : Chain σ} (h : chain.Plays graph) (hsound : graph.Sound)
    {node : SignalNode} (hnode : node ∈ graph.schedule) :
    node.id ∈ chain.inPlaceBoxes ↔ ∃ edge, TakesOver graph.wires node edge := by
  rw [inPlaceBoxes, h.steps, mem_inPlace_stepsFrom]
  constructor
  · rintro ⟨other, hother, hid, htakes⟩
    have hsame := SignalGraph.eq_of_mem_participants hsound.nodup (graph.schedule_subset hother)
      (graph.schedule_subset hnode) hid
    exact hsame ▸ htakes
  · exact fun htakes => ⟨node, hnode, rfl, htakes⟩

/-- A chain of a graph with no box in place names none. -/
theorem Plays.inPlaceBoxes_apart {chain : Chain σ} (h : chain.Plays graph.apart) :
    chain.inPlaceBoxes = [] := by
  rw [List.eq_nil_iff_forall_not_mem]
  intro id hid
  rw [inPlaceBoxes, h.steps, mem_inPlace_stepsFrom] at hid
  obtain ⟨node, hnode, -, edge, hedge⟩ := hid
  rw [graph.schedule_apart] at hnode
  obtain ⟨original, -, rfl⟩ := List.mem_map.mp hnode
  exact not_takesOver_apart original edge hedge

/-- The boxes keep to the laws if those do that the chain lets work in place, and those that feed
them. -/
theorem Plays.lawful {chain : Chain σ} (h : chain.Plays graph) (hsound : graph.Sound)
    (hshares : processor.SharesBuffers blockSize good graph chain.inPlaceBoxes) :
    Lawful processor graph.wires blockSize good graph.schedule where
  perform_good node hnode := hshares.perform_good node (graph.schedule_subset hnode)
  performInPlace_good node hnode := hshares.performInPlace_good node (graph.schedule_subset hnode)
  inPlace node hnode edge hedge := by
    obtain ⟨hwire, htarget⟩ := hedge.mem
    have hparticipant := graph.schedule_subset hnode
    refine ⟨?_, hshares.inPlace node hparticipant
      ((h.mem_inPlaceBoxes_iff hsound hnode).mpr ⟨edge, hedge⟩)⟩
    have hinlet := hsound.target edge (List.mem_filter.mp hwire).1 node
      (List.mem_filter.mp hparticipant).1 htarget.symm
    omega
  overwrites node hnode outlet hovertaken := by
    obtain ⟨edge, taker, htaker, hedge, hsource, rfl⟩ := hovertaken
    obtain ⟨hwire, htarget⟩ := hedge.mem
    refine hshares.overwrites edge hwire ?_ node (graph.schedule_subset hnode) hsource.symm
    rw [htarget]
    exact (h.mem_inPlaceBoxes_iff hsound htaker).mpr ⟨edge, hedge⟩

/-- A chain that plays a graph, and one that plays it with no box in place. -/
structure Beside (graph : SignalGraph) (chain apart : Chain σ) : Prop where
  shared : chain.Plays graph
  separate : apart.Plays graph.apart
  size : apart.blockSize = chain.blockSize
  alike : Alike graph.wires graph.schedule chain.buffers apart.buffers

/-- In a chain that has just been built, a box that takes over no buffer has silent ones at its
outlets. -/
theorem getElem?_buffers_of_build {zero : σ} {sampleRate : Float32}
    (hvalid : validSettings sampleRate blockSize = true) {chain : Chain σ}
    (hbuild : build zero graph sampleRate blockSize = .ok chain) {position : Nat} {node : SignalNode}
    (hnode : graph.schedule[position]? = some node)
    (hnot : ∀ edge, ¬ TakesOver graph.wires node edge) :
    chain.buffers[position]? = some (node.outlets.map fun present =>
      Buffer.constant (if present then blockSize else 0) zero) := by
  obtain ⟨-, rfl⟩ := (build_eq_ok_iff zero hvalid chain).mp hbuild
  have hstep := buffers_getElem?_stepsFrom 0 (fun _ _ => ⟨0, 0⟩) hnode hnot
  obtain ⟨step, hstep, hbuffers⟩ := Option.map_eq_some_iff.mp hstep
  simp [hstep, hbuffers]

/-- With settings that can be used, a chain can be built of the graph with no box in place if one can be
built of the graph. They are silent alike. -/
theorem beside_of_build {zero : σ} {sampleRate : Float32}
    (hvalid : validSettings sampleRate blockSize = true) {chain : Chain σ}
    (hbuild : build zero graph sampleRate blockSize = .ok chain) :
    ∃ apart, build zero graph.apart sampleRate blockSize = .ok apart ∧
      Beside graph chain apart := by
  have hplays := plays_of_build hvalid hbuild
  obtain ⟨hcomplete, hchain⟩ := (build_eq_ok_iff zero hvalid chain).mp hbuild
  have hcompleteApart : graph.apart.order.length = graph.apart.participants.length := by
    rw [graph.order_apart, graph.participants_apart, List.length_map, hcomplete]
  obtain ⟨apart, hbuildApart, hsize⟩ : ∃ apart,
      build zero graph.apart sampleRate blockSize = .ok apart ∧ apart.blockSize = blockSize :=
    ⟨_, (build_eq_ok_iff zero hvalid _).mpr ⟨hcompleteApart, rfl⟩, rfl⟩
  refine ⟨apart, hbuildApart, hplays, plays_of_build hvalid hbuildApart, by rw [hsize, hchain], ?_⟩
  intro position node hnode hnot outlet _
  have hnodeApart : graph.apart.schedule[position]? = some node.apart := by
    simp [graph.schedule_apart, hnode]
  have hfound := getElem?_buffers_of_build hvalid hbuild hnode hnot
  have hother := getElem?_buffers_of_build hvalid hbuildApart hnodeApart (not_takesOver_apart node)
  simp only [bufferAt, hfound, hother]
  rfl

/-- Two chains side by side do the same in a block, and stay side by side. -/
theorem Beside.tick {chain apart : Chain σ} (h : Beside graph chain apart) (hsound : graph.Sound)
    (hkeeps : processor.KeepsSizes)
    (hshares : processor.SharesBuffers chain.blockSize good graph chain.inPlaceBoxes) {boxes : S}
    {bus : Bus σ} (hgood : good boxes) (hbus : bus.Fed chain.blockSize) :
    (chain.tick processor boxes bus).2 = (apart.tick processor boxes bus).2 ∧
      Beside graph (chain.tick processor boxes bus).1 (apart.tick processor boxes bus).1 ∧
      good (chain.tick processor boxes bus).2.1 ∧
      (chain.tick processor boxes bus).2.2.Fed chain.blockSize := by
  have hstart : Twins graph.wires chain.blockSize graph.schedule
      (([] : List SignalNode).map SignalNode.id) (fun _ _ => ⟨0, 0⟩) (fun _ _ => ⟨0, 0⟩)
      ⟨boxes, chain.buffers, bus.clearOutputs processor.zero⟩
      ⟨boxes, apart.buffers, bus.clearOutputs processor.zero⟩
      ⟨boxes, fun _ _ => [], bus.clearOutputs processor.zero⟩ := by
    refine twins_start _ _ ?_ ?_ h.alike _ <;> rfl
  have hsteps := h.shared.steps
  have hstepsApart := h.separate.steps
  rw [graph.wires_apart, graph.schedule_apart] at hstepsApart
  have hsizes := h.shared.sizes
  have hsizesApart := h.separate.sizes
  rw [hsteps] at hsizes
  rw [hstepsApart, h.size] at hsizesApart
  obtain ⟨_, _, last, htwins, hlastGood, hlastBus⟩ := hstart.performFrom (h.shared.lawful hsound hshares)
    hkeeps rfl (fun before node after heq => hsound.next heq) hsizes hsizesApart hgood hbus
  have hend : (chain.tick processor boxes bus).2 = (last.boxes, last.bus) := by
    rw [← htwins.shared.boxes, ← htwins.shared.bus, Chain.tick, hsteps]
    rfl
  have hendApart : (apart.tick processor boxes bus).2 = (last.boxes, last.bus) := by
    rw [← htwins.apart.boxes, ← htwins.apart.bus, Chain.tick, hstepsApart, h.size]
    rfl
  refine ⟨hend.trans hendApart.symm, ⟨h.shared.tick hkeeps boxes bus,
    h.separate.tick hkeeps boxes bus, h.size, ?_⟩, ?_, ?_⟩
  · have halike := htwins.alike
    simp only [Chain.tick, hsteps, hstepsApart, h.size]
    exact halike
  · rw [hend]
    exact hlastGood
  · rw [hend]
    exact hlastBus

/-- Two chains side by side do the same over any number of blocks, as long as what happens between two
blocks leaves the boxes in good states and puts whole blocks on the bus. -/
theorem Beside.play {chain apart : Chain σ} (h : Beside graph chain apart) (hsound : graph.Sound)
    (hkeeps : processor.KeepsSizes)
    (hshares : processor.SharesBuffers chain.blockSize good graph chain.inPlaceBoxes)
    {interludes : List (Interlude σ S)}
    (hinterludes : ∀ interlude ∈ interludes, ∀ boxes bus, good boxes → bus.Fed chain.blockSize →
      good (interlude boxes bus).1 ∧ (interlude boxes bus).2.Fed chain.blockSize)
    {boxes : S} {bus : Bus σ} (hgood : good boxes) (hbus : bus.Fed chain.blockSize) :
    (play processor interludes chain boxes bus).2 =
      (play processor interludes apart boxes bus).2 := by
  induction interludes generalizing chain apart boxes bus with
  | nil => rfl
  | cons interlude rest ih =>
    obtain ⟨hgoodNext, hbusNext⟩ := hinterludes interlude List.mem_cons_self boxes bus hgood hbus
    obtain ⟨hsame, hbeside, hgoodEnd, hbusEnd⟩ :=
      h.tick hsound hkeeps hshares hgoodNext hbusNext
    have hrest := ih hbeside hshares
      (fun later hlater => hinterludes later (List.mem_cons_of_mem _ hlater)) hgoodEnd hbusEnd
    simp only [Chain.play]
    rw [hrest, hsame]

end Patchbay.Chain
