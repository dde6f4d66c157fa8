import Patchbay.Proofs.Signal.Schedule
import Patchbay.Proofs.Signal.Tracking

/-!
# Playing a chain block after block

Every block that a chain computes is a block of the dataflow of the graph that it was built from. This
holds of the first block and of every later one, whatever the buffers still hold from the block before
and whatever happens to the boxes and to the bus between two blocks.
-/

namespace Patchbay

namespace SignalGraph

variable {graph : SignalGraph}

/-- In the schedule of a sound graph, every box is next when its turn comes. -/
theorem Sound.next (h : graph.Sound) {before after : List SignalNode} {node : SignalNode}
    (heq : graph.schedule = before ++ node :: after) :
    Chain.Next graph.wires (before.map SignalNode.id) node where
  fresh := by
    have hunique := nodup_schedule h.nodup
    rw [heq, List.map_append, List.map_cons] at hunique
    intro hmem
    exact List.disjoint_of_nodup_append hunique hmem List.mem_cons_self
  fed edge hedge htarget := schedule_ordered h.nodup heq hedge htarget
  signal edge hedge hsource := by
    have hnode : node ∈ graph.participants := graph.schedule_subset (heq ▸ by simp)
    exact h.source edge (List.mem_filter.mp hedge).1 node (List.mem_filter.mp hnode).1 hsource.symm

end SignalGraph

/-- The sizes of the buffers of a step. -/
def Step.sizes (step : Step) (blockSize : Nat) : List Nat :=
  step.buffers.map fun present => if present then blockSize else 0

namespace Chain

open Dataflow

variable {σ S : Type} {graph : SignalGraph} {processor : Processor σ S}

/-- The steps of a chain are those of a graph, and its buffers have the sizes that they should. -/
structure Plays (graph : SignalGraph) (chain : Chain σ) : Prop where
  complete : graph.order.length = graph.participants.length
  steps : chain.steps = stepsFrom graph.wires 0 (fun _ _ => ⟨0, 0⟩) graph.schedule
  sizes : chain.buffers.map Buffer.sizes = chain.steps.map fun step => step.sizes chain.blockSize

/-- A chain that has just been built plays its graph. -/
theorem plays_of_build {zero : σ} {sampleRate : Float32} {blockSize : Nat}
    (hvalid : validSettings sampleRate blockSize = true) {chain : Chain σ}
    (hbuild : build zero graph sampleRate blockSize = .ok chain) : chain.Plays graph := by
  obtain ⟨hcomplete, rfl⟩ := (build_eq_ok_iff zero hvalid chain).mp hbuild
  refine ⟨hcomplete, rfl, ?_⟩
  simp [Buffer.sizes, Step.sizes, Buffer.constant, Function.comp_def]

/-- When a step has been performed, the buffers of those that follow have the sizes that they should. -/
theorem sizes_rest (hkeeps : processor.KeepsSizes) {wires : List Connection} {blockSize : Nat}
    {flow : Flow σ S} {position : Nat} {placed : Placement} {node : SignalNode}
    {rest : List SignalNode}
    (hsizes : (flow.buffers.map Buffer.sizes).drop position =
      (stepsFrom wires position placed (node :: rest)).map fun step => step.sizes blockSize) :
    ((performStep processor blockSize flow position (stepOf wires placed node)).buffers.map
        Buffer.sizes).drop (position + 1) =
      (stepsFrom wires (position + 1) (place placed position (stepOf wires placed node)) rest).map
        fun step => step.sizes blockSize := by
  rw [sizes_performStep hkeeps, ← List.tail_drop, hsizes]
  rfl

/-- A box that takes over no buffer finds one for every outlet that puts out a signal. -/
theorem exists_found {wires : List Connection} {blockSize : Nat} {buffers : List (List (Buffer σ))}
    {position : Nat} {placed : Placement} {node : SignalNode} {rest : List SignalNode}
    (hsizes : (buffers.map Buffer.sizes).drop position =
      (stepsFrom wires position placed (node :: rest)).map fun step => step.sizes blockSize)
    (hnot : ∀ edge, ¬ TakesOver wires node edge) :
    ∃ found, buffers[position]? = some found ∧ Buffer.sizes found = node.sizes blockSize := by
  have hfound : (buffers.map Buffer.sizes)[position]? = some (node.sizes blockSize) := by
    rw [← Nat.add_zero position, ← List.getElem?_drop, hsizes, stepsFrom,
      stepOf_of_not_takesOver placed hnot]
    rfl
  rw [List.getElem?_map, Option.map_eq_some_iff] at hfound
  exact hfound

/-- Steps performed one after the other visit their boxes in the dataflow. -/
theorem performFrom_visits (hkeeps : processor.KeepsSizes) {wires : List Connection}
    {blockSize : Nat} {rest : List SignalNode} {visited : List Nat} {placed : Placement}
    {flow : Flow σ S} {stage : Stage σ S} (h : Tracks wires blockSize visited placed flow stage)
    (hnext : ∀ before node after, rest = before ++ node :: after →
      Next wires (visited ++ before.map SignalNode.id) node)
    (hsizes : (flow.buffers.map Buffer.sizes).drop visited.length =
      (stepsFrom wires visited.length placed rest).map fun step => step.sizes blockSize) :
    ∃ last, Visits processor blockSize wires rest stage last ∧
      (performFrom processor blockSize visited.length
        (stepsFrom wires visited.length placed rest) flow).boxes = last.boxes ∧
      (performFrom processor blockSize visited.length
        (stepsFrom wires visited.length placed rest) flow).bus = last.bus := by
  induction rest generalizing visited placed flow stage with
  | nil => exact ⟨stage, .nil stage, h.boxes, h.bus⟩
  | cons node rest ih =>
    have hfirst : Next wires visited node := by simpa using hnext [] node rest rfl
    have hlength : (visited ++ [node.id]).length = visited.length + 1 := by simp
    have hrestNext : ∀ before other after, rest = before ++ other :: after →
        Next wires (visited ++ [node.id] ++ before.map SignalNode.id) other := by
      intro before other after heq
      simpa using hnext (node :: before) other after (by rw [heq, List.cons_append])
    have hrestSizes := sizes_rest hkeeps hsizes
    rw [← hlength] at hrestSizes
    by_cases htakes : ∃ edge, TakesOver wires node edge
    · obtain ⟨edge, hedge⟩ := htakes
      obtain ⟨last, hvisits, hboxes, hbus⟩ :=
        ih (h.tookOver hfirst hedge hkeeps) hrestNext hrestSizes
      rw [hlength] at hboxes hbus
      exact ⟨last, .cons (.inPlace _ hedge.able (hedge.seen_first processor _)
        fun inlet hinlet => hedge.seen_other processor _ hinlet) hvisits, hboxes, hbus⟩
    · have hnot : ∀ edge, ¬ TakesOver wires node edge := fun edge hedge => htakes ⟨edge, hedge⟩
      obtain ⟨found, hfound, hfoundSizes⟩ := exists_found hsizes hnot
      obtain ⟨last, hvisits, hboxes, hbus⟩ :=
        ih (h.performed hfirst hnot hkeeps hfound hfoundSizes) hrestNext hrestSizes
      rw [hlength] at hboxes hbus
      exact ⟨last, .cons (.performed found hfoundSizes) hvisits, hboxes, hbus⟩

/-- Before the first visit no wire is pending. -/
theorem tracks_start (wires : List Connection) (blockSize : Nat) (placed : Placement)
    (flow : Flow σ S) (produced : Nat → Nat → Buffer σ) :
    Tracks wires blockSize [] placed flow ⟨flow.boxes, produced, flow.bus⟩ where
  boxes := rfl
  bus := rfl
  holds _ h := absurd h.2.1 List.not_mem_nil
  apart _ _ h := absurd h.2.1 List.not_mem_nil
  behind _ h := absurd h.2.1 List.not_mem_nil
  located _ h := absurd h.2.1 List.not_mem_nil

namespace Plays

variable {chain : Chain σ}

/-- The chain performs the boxes of the schedule in their order. -/
theorem map_id_schedule (h : chain.Plays graph) : graph.schedule.map SignalNode.id = chain.order := by
  rw [order, h.steps, map_id_stepsFrom]

/-- Every block is a block of the dataflow. -/
theorem block (h : chain.Plays graph) (hsound : graph.Sound) (hkeeps : processor.KeepsSizes)
    (boxes : S) (bus : Bus σ) :
    Block processor chain.blockSize graph graph.schedule boxes bus
      (chain.tick processor boxes bus).2 where
  perm := SignalGraph.schedule_perm hsound.nodup h.complete
  ordered before node rest heq := (hsound.next heq).fed
  visits := by
    have hstart := tracks_start graph.wires chain.blockSize (fun _ _ => ⟨0, 0⟩)
      ⟨boxes, chain.buffers, bus.clearOutputs processor.zero⟩ (fun _ _ => [])
    obtain ⟨last, hvisits, hboxes, hbus⟩ := performFrom_visits hkeeps hstart
      (fun before node after heq => by simpa using hsound.next heq)
      (by simpa [h.steps] using h.sizes)
    have hboxesEnd : (chain.tick processor boxes bus).2.1 = last.boxes := by
      simp only [Chain.tick, h.steps]
      exact hboxes
    have hbusEnd : (chain.tick processor boxes bus).2.2 = last.bus := by
      simp only [Chain.tick, h.steps]
      exact hbus
    rw [hboxesEnd, hbusEnd]
    exact ⟨last.produced, hvisits⟩

/-- A chain goes on playing its graph after a block. -/
theorem tick (h : chain.Plays graph) (hkeeps : processor.KeepsSizes) (boxes : S) (bus : Bus σ) :
    (chain.tick processor boxes bus).1.Plays graph where
  complete := h.complete
  steps := h.steps
  sizes := by
    simp only [Chain.tick]
    rw [sizes_performFrom hkeeps, h.sizes]

end Plays

/-- What happens between two blocks: messages may change the boxes, and other samples may be put on the
bus. -/
abbrev Interlude (σ S : Type) := S → Bus σ → S × Bus σ

/-- Play a block after each of a list of interludes. -/
def play (processor : Processor σ S) :
    List (Interlude σ S) → Chain σ → S → Bus σ → Chain σ × S × Bus σ
  | [], chain, boxes, bus => (chain, boxes, bus)
  | interlude :: rest, chain, boxes, bus =>
    let (chain, boxes, bus) :=
      chain.tick processor (interlude boxes bus).1 (interlude boxes bus).2
    play processor rest chain boxes bus

/-- A chain goes on playing its graph after any number of blocks, of the same size. -/
theorem Plays.play {chain : Chain σ} (h : chain.Plays graph) (hkeeps : processor.KeepsSizes)
    (interludes : List (Interlude σ S)) (boxes : S) (bus : Bus σ) :
    (play processor interludes chain boxes bus).1.Plays graph ∧
      (play processor interludes chain boxes bus).1.blockSize = chain.blockSize := by
  induction interludes generalizing chain boxes bus with
  | nil => exact ⟨h, rfl⟩
  | cons interlude rest ih => exact ih (h.tick hkeeps _ _) _ _

end Chain

end Patchbay
