import Patchbay.Proofs.Signal.Order
import Patchbay.Signal.Chain

/-!
# The schedule of a signal graph

The boxes that take part, in their order of execution. A chain can be built exactly when the wires
between these boxes form no cycle, and then its steps stand for each of them once, every box coming
after all boxes that feed it.

Nothing is assumed of the wires: they may be parallel, and those that end at a box that takes no part
count for nothing.
-/

namespace Patchbay

namespace SignalGraph

variable {graph : SignalGraph}

/-- The boxes that take part, in their order of execution. -/
def schedule (graph : SignalGraph) : List SignalNode :=
  graph.order.filterMap fun id => graph.participants.find? fun node => node.id == id

/-- One box feeds another if a wire between boxes that take part leads from the first to the
second. -/
def Feeding (graph : SignalGraph) (source target : Nat) : Prop :=
  ∃ edge ∈ graph.wires, edge.source = source ∧ edge.target = target

/-- No box that takes part feeds itself, be it over any number of others. -/
def Acyclic (graph : SignalGraph) : Prop := ∀ id, ¬ Relation.TransGen graph.Feeding id id

/-- The pairs from which the order is computed are those of the wires. -/
theorem feeding_wires (graph : SignalGraph) :
    Order.Feeding (graph.wires.map fun edge => (edge.source, edge.target)) = graph.Feeding := by
  funext source target
  simp [Order.Feeding, Feeding]

/-- Only boxes that take part are joined by the wires that count. -/
theorem wires_inside (graph : SignalGraph) :
    ∀ feed ∈ graph.wires.map (fun edge => (edge.source, edge.target)),
      feed.1 ∈ graph.participants.map SignalNode.id ∧
        feed.2 ∈ graph.participants.map SignalNode.id := by
  intro feed hfeed
  obtain ⟨edge, hedge, rfl⟩ := List.mem_map.mp hfeed
  simpa [wires, List.mem_filter] using (List.mem_filter.mp hedge).2

/-- Each box that takes part has a number of its own if each box has. -/
theorem nodup_participants (hids : (graph.nodes.map SignalNode.id).Nodup) :
    (graph.participants.map SignalNode.id).Nodup :=
  (List.filter_sublist.map SignalNode.id).nodup hids

/-- A box is determined by its number among those that take part. -/
theorem eq_of_mem_participants (hids : (graph.nodes.map SignalNode.id).Nodup)
    {first second : SignalNode} (hfirst : first ∈ graph.participants)
    (hsecond : second ∈ graph.participants) (hid : first.id = second.id) : first = second :=
  List.inj_on_of_nodup_map (nodup_participants hids) hfirst hsecond hid

/-- The order names each box once. -/
theorem nodup_order (hids : (graph.nodes.map SignalNode.id).Nodup) : graph.order.Nodup :=
  Order.nodup_execution (nodup_participants hids) fun feed hfeed => (graph.wires_inside feed hfeed).2

/-- The order names only boxes that take part. -/
theorem order_subset (hids : (graph.nodes.map SignalNode.id).Nodup) :
    graph.order ⊆ graph.participants.map SignalNode.id :=
  Order.execution_subset (nodup_participants hids) fun feed hfeed => (graph.wires_inside feed hfeed).2

/-- The order is complete exactly when there is no cycle. -/
theorem length_order_iff_acyclic (hids : (graph.nodes.map SignalNode.id).Nodup) :
    graph.order.length = graph.participants.length ↔ graph.Acyclic := by
  have h := Order.execution_length_iff_acyclic (nodup_participants hids) graph.wires_inside
  rw [List.length_map] at h
  rw [Acyclic, ← feeding_wires]
  exact h

/-- A complete order names exactly the boxes that take part. -/
theorem order_perm (hids : (graph.nodes.map SignalNode.id).Nodup)
    (hlength : graph.order.length = graph.participants.length) :
    graph.order.Perm (graph.participants.map SignalNode.id) :=
  Order.execution_perm_of_length (nodup_participants hids)
    (fun feed hfeed => (graph.wires_inside feed hfeed).2) (by rwa [List.length_map])

/-- Finding boxes by their numbers loses none and keeps their order. -/
theorem map_id_filterMap_find? (nodes : List SignalNode) (ids : List Nat)
    (hids : ids ⊆ nodes.map SignalNode.id) :
    (ids.filterMap fun id => nodes.find? fun node => node.id == id).map SignalNode.id = ids := by
  induction ids with
  | nil => rfl
  | cons id rest ih =>
    obtain ⟨hid, hrest⟩ := List.cons_subset.mp hids
    obtain ⟨node, hnode, hnodeId⟩ := List.mem_map.mp hid
    obtain ⟨found, hfound⟩ := Option.isSome_iff_exists.mp
      (List.find?_isSome.mpr ⟨node, hnode, beq_iff_eq.mpr hnodeId⟩ :
        (nodes.find? fun node => node.id == id).isSome)
    have hfoundId : found.id = id := by simpa using List.find?_some hfound
    simp only [List.filterMap_cons, hfound, List.map_cons, hfoundId, ih hrest]

/-- The schedule follows the order. -/
theorem map_id_schedule (hids : (graph.nodes.map SignalNode.id).Nodup) :
    graph.schedule.map SignalNode.id = graph.order :=
  map_id_filterMap_find? graph.participants graph.order (order_subset hids)

/-- No box is scheduled twice. -/
theorem nodup_schedule (hids : (graph.nodes.map SignalNode.id).Nodup) :
    (graph.schedule.map SignalNode.id).Nodup := by
  rw [map_id_schedule hids]
  exact nodup_order hids

/-- Only boxes that take part are scheduled. -/
theorem schedule_subset (graph : SignalGraph) : graph.schedule ⊆ graph.participants := by
  intro node hnode
  obtain ⟨id, -, hfound⟩ := List.mem_filterMap.mp hnode
  exact List.mem_of_find?_eq_some hfound

/-- With a complete order, exactly the boxes that take part are scheduled. -/
theorem schedule_perm (hids : (graph.nodes.map SignalNode.id).Nodup)
    (hlength : graph.order.length = graph.participants.length) :
    graph.schedule.Perm graph.participants := by
  rw [List.perm_ext_iff_of_nodup (nodup_schedule hids).of_map (nodup_participants hids).of_map]
  intro node
  constructor
  · exact fun hnode => graph.schedule_subset hnode
  · intro hnode
    have hid : node.id ∈ graph.schedule.map SignalNode.id := by
      rw [map_id_schedule hids]
      exact (order_perm hids hlength).mem_iff.mpr (List.mem_map_of_mem hnode)
    obtain ⟨other, hother, hsame⟩ := List.mem_map.mp hid
    rwa [eq_of_mem_participants hids hnode (graph.schedule_subset hother) hsame.symm]

/-- Every scheduled box comes after the boxes at the other ends of its wires. -/
theorem schedule_ordered (hids : (graph.nodes.map SignalNode.id).Nodup)
    {before after : List SignalNode} {node : SignalNode}
    (heq : graph.schedule = before ++ node :: after) {edge : Connection} (hedge : edge ∈ graph.wires)
    (htarget : edge.target = node.id) : edge.source ∈ before.map SignalNode.id := by
  have horder : graph.order =
      before.map SignalNode.id ++ node.id :: after.map SignalNode.id := by
    rw [← map_id_schedule hids, heq, List.map_append, List.map_cons]
  exact Order.execution_ordered (nodup_participants hids)
    (fun feed hfeed => (graph.wires_inside feed hfeed).2) horder (edge.source, edge.target)
    (List.mem_map_of_mem hedge) htarget

/-- In a complete order every wire leads forward. -/
theorem idxOf_order_lt (hids : (graph.nodes.map SignalNode.id).Nodup)
    (hlength : graph.order.length = graph.participants.length) {edge : Connection}
    (hedge : edge ∈ graph.wires) :
    graph.order.idxOf edge.source < graph.order.idxOf edge.target := by
  have hpair : (edge.source, edge.target) ∈
      graph.wires.map fun edge => (edge.source, edge.target) :=
    List.mem_map_of_mem hedge
  exact Order.idxOf_lt_of_feeding (nodup_participants hids)
    (fun feed hfeed => (graph.wires_inside feed hfeed).2) hpair
    ((order_perm hids hlength).mem_iff.mpr (graph.wires_inside _ hpair).2)

end SignalGraph

namespace Chain

open SignalGraph

variable {σ : Type} {graph : SignalGraph}

/-- Steps are made for the scheduled boxes if the order is complete; otherwise the boxes that are
missing from it are reported. -/
theorem steps?_eq (graph : SignalGraph) :
    steps? graph =
      if graph.order.length = graph.participants.length then
        .ok (stepsFrom graph.wires 0 (fun _ _ => ⟨0, 0⟩) graph.schedule)
      else
        .error <| .cycle <|
          (graph.participants.map SignalNode.id).filter fun id => !graph.order.contains id := rfl

/-- Every step stands for the box that it was made for. -/
theorem stepOf_id (wires : List Connection) (placed : Placement) (node : SignalNode) :
    (stepOf wires placed node).id = node.id := by
  unfold stepOf
  split <;> rfl

/-- Steps stand for the boxes that they were made for, in the same order. -/
theorem map_id_stepsFrom (wires : List Connection) (position : Nat) (placed : Placement)
    (nodes : List SignalNode) :
    (stepsFrom wires position placed nodes).map Step.id = nodes.map SignalNode.id := by
  induction nodes generalizing position placed with
  | nil => rfl
  | cons node rest ih => rw [stepsFrom, List.map_cons, List.map_cons, stepOf_id, ih]

/-- The settings can be used if the block has samples and the rate is a finite number above zero. -/
theorem validSettings_of {sampleRate : Float32} {blockSize : Nat} (hsize : 0 < blockSize)
    (hfinite : sampleRate.isFinite) (hpositive : sampleRate > 0.0) :
    validSettings sampleRate blockSize = true := by
  have hnonzero : blockSize ≠ 0 := by omega
  simp [validSettings, hnonzero, hfinite, hpositive]

/-- A chain can be built with settings that can be used only. -/
theorem validSettings_of_build {zero : σ} {sampleRate : Float32} {blockSize : Nat}
    {chain : Chain σ} (hbuild : build zero graph sampleRate blockSize = .ok chain) :
    validSettings sampleRate blockSize = true := by
  by_contra hinvalid
  rw [build, if_neg hinvalid] at hbuild
  cases hbuild

/-- With settings that can be used, a chain is built exactly from a complete order, and its steps are
those of the scheduled boxes. -/
theorem build_eq_ok_iff (zero : σ) {sampleRate : Float32} {blockSize : Nat}
    (hvalid : validSettings sampleRate blockSize = true) (chain : Chain σ) :
    build zero graph sampleRate blockSize = .ok chain ↔
      graph.order.length = graph.participants.length ∧
        chain =
          { steps := stepsFrom graph.wires 0 (fun _ _ => ⟨0, 0⟩) graph.schedule
            buffers := (stepsFrom graph.wires 0 (fun _ _ => ⟨0, 0⟩) graph.schedule).map fun step =>
              step.buffers.map fun present =>
                Buffer.constant (if present then blockSize else 0) zero
            blockSize } := by
  rw [build, if_pos hvalid, steps?_eq]
  by_cases hlength : graph.order.length = graph.participants.length
  · simp only [hlength, if_true, Except.map, Except.ok.injEq, true_and]
    exact eq_comm
  · simp [hlength, Except.map]

/-- The order of a chain is the order of the graph that it was built from. -/
theorem order_of_build (hids : (graph.nodes.map SignalNode.id).Nodup) {zero : σ}
    {sampleRate : Float32} {blockSize : Nat} (hvalid : validSettings sampleRate blockSize = true)
    {chain : Chain σ} (hbuild : build zero graph sampleRate blockSize = .ok chain) :
    chain.order = graph.order := by
  obtain ⟨-, rfl⟩ := (build_eq_ok_iff zero hvalid chain).mp hbuild
  rw [order, map_id_stepsFrom, map_id_schedule hids]

/-- A chain can be built exactly when the boxes that take part do not feed each other in a circle.
Its order then names each of these boxes once, and every wire leads from an earlier box to a later
one. -/
theorem build_ok_iff_acyclic (zero : σ) (graph : SignalGraph)
    (hids : (graph.nodes.map SignalNode.id).Nodup) {sampleRate : Float32} {blockSize : Nat}
    (hsize : 0 < blockSize) (hfinite : sampleRate.isFinite) (hpositive : sampleRate > 0.0) :
    ((∃ chain, build zero graph sampleRate blockSize = .ok chain) ↔ graph.Acyclic) ∧
      ∀ chain, build zero graph sampleRate blockSize = .ok chain →
        chain.order.Perm (graph.participants.map SignalNode.id) ∧ chain.order.Nodup ∧
          ∀ edge ∈ graph.wires,
            chain.order.idxOf edge.source < chain.order.idxOf edge.target := by
  have hvalid := validSettings_of hsize hfinite hpositive
  constructor
  · rw [← length_order_iff_acyclic hids]
    simp [build_eq_ok_iff zero hvalid]
  · intro chain hbuild
    have hlength := ((build_eq_ok_iff zero hvalid chain).mp hbuild).1
    rw [order_of_build hids hvalid hbuild]
    exact ⟨order_perm hids hlength, nodup_order hids,
      fun edge hedge => idxOf_order_lt hids hlength hedge⟩

/-- One box feeds two, by two wires the second of them, and both feed a last one. A fifth box takes no
part, though wires lead through it in a circle. -/
def diamond : SignalGraph :=
  { nodes := [⟨0, true, false, 2, [true, true]⟩, ⟨1, true, true, 2, [true]⟩,
      ⟨2, true, true, 2, [true]⟩, ⟨3, true, false, 2, []⟩, ⟨4, false, false, 1, [true]⟩]
    edges := [⟨2, 0, 3, 1, true⟩, ⟨1, 0, 3, 0, true⟩, ⟨0, 0, 2, 0, true⟩, ⟨0, 1, 2, 1, true⟩,
      ⟨0, 0, 1, 0, true⟩, ⟨3, 0, 4, 0, true⟩, ⟨4, 0, 0, 0, true⟩] }

/-- The diamond has no cycle, since a chain can be built of it. -/
theorem build_ok_iff_acyclic_diamond :
    diamond.Acyclic ∧ ∃ chain, build (0 : Int) diamond 44100.0 64 = .ok chain ∧
      chain.order.Perm [0, 1, 2, 3] ∧ chain.order.idxOf 0 < chain.order.idxOf 2 := by
  have h := build_ok_iff_acyclic (0 : Int) diamond (by decide) (by decide : 0 < 64)
    (by decide : Float32.isFinite 44100.0) (by decide : (44100.0 : Float32) > 0.0)
  obtain ⟨chain, hbuild⟩ : ∃ chain, build (0 : Int) diamond 44100.0 64 = .ok chain := ⟨_, rfl⟩
  obtain ⟨hperm, -, hforward⟩ := h.2 chain hbuild
  exact ⟨h.1.mp ⟨chain, hbuild⟩, chain, hbuild, hperm, hforward ⟨0, 1, 2, 1, true⟩ (by decide)⟩

end Chain

end Patchbay
