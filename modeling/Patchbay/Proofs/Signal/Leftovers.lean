import Patchbay.Proofs.Signal.Schedule

/-!
# The boxes that a cycle leaves over

When no chain can be built, the boxes that have no place in the order are reported. They are the boxes on
cycles, and with them all boxes that signal wires lead to from a cycle: these cannot be ordered either,
though they may lie on no cycle themselves.
-/

namespace Patchbay

namespace SignalGraph

variable {graph : SignalGraph} {id : Nat}

/-- A box lies on a cycle if it feeds itself, be it over any number of other boxes that take part. -/
def OnCycle (graph : SignalGraph) (id : Nat) : Prop := Relation.TransGen graph.Feeding id id

/-- A box is fed from a cycle if it lies on one, or if wires between boxes that take part lead to it from
one. -/
def FedFromCycle (graph : SignalGraph) (id : Nat) : Prop :=
  ∃ source, graph.OnCycle source ∧ Relation.ReflTransGen graph.Feeding source id

/-- A box on a cycle is fed from it. -/
theorem OnCycle.fedFromCycle (h : graph.OnCycle id) : graph.FedFromCycle id := ⟨id, h, .refl⟩

/-- A box that is fed from a cycle takes part. -/
theorem FedFromCycle.mem_participants (h : graph.FedFromCycle id) :
    id ∈ graph.participants.map SignalNode.id := by
  obtain ⟨source, hcycle, hpath⟩ := h
  have hfed : Relation.TransGen graph.Feeding source id := hcycle.trans_left hpath
  have hinside : ∀ {first last}, graph.Feeding first last →
      last ∈ graph.participants.map SignalNode.id := by
    rintro _ _ ⟨edge, hedge, -, rfl⟩
    exact (graph.wires_inside _ (List.mem_map_of_mem hedge)).2
  cases hfed with
  | single hfeeding => exact hinside hfeeding
  | tail _ hfeeding => exact hinside hfeeding

/-- A box that takes part is missing from the order exactly if it is fed from a cycle. -/
theorem notMem_order_iff (hids : (graph.nodes.map SignalNode.id).Nodup)
    (hid : id ∈ graph.participants.map SignalNode.id) :
    id ∉ graph.order ↔ graph.FedFromCycle id := by
  rw [order, Order.mem_execution_iff_not_fedFromCycle (nodup_participants hids) graph.wires_inside hid,
    not_not, Order.FedFromCycle, feeding_wires]
  rfl

end SignalGraph

namespace Chain

variable {σ : Type} {graph : SignalGraph}

/-- A cycle is reported with the boxes that take part and are missing from the order. -/
theorem build_eq_cycle_iff {zero : σ} {sampleRate : Float32} {blockSize : Nat} {boxes : List Nat} :
    build zero graph sampleRate blockSize = .error (.cycle boxes) ↔
      validSettings sampleRate blockSize = true ∧
        graph.order.length ≠ graph.participants.length ∧
        boxes = (graph.participants.map SignalNode.id).filter fun id => !graph.order.contains id := by
  rw [build]
  split
  · next hvalid =>
    rw [steps?_eq]
    split
    · next hlength => simp [Except.map, hlength]
    · next hlength => simp [Except.map, hvalid, hlength, eq_comm]
  · next hinvalid => simp [hinvalid]

/-- The boxes that are reported with a cycle stand in ascending order, each of them once, and are those
that are fed from a cycle: the boxes on cycles, of which there are some, and the boxes that wires lead to
from there. So they are just the boxes on cycles exactly if no wire leads from one of these to a box that
is on none. -/
theorem cycle_reports_what_it_feeds {zero : σ}
    (hids : (graph.nodes.map SignalNode.id).Pairwise (· < ·)) {sampleRate : Float32} {blockSize : Nat}
    {boxes : List Nat} (hbuild : build zero graph sampleRate blockSize = .error (.cycle boxes)) :
    boxes.Pairwise (· < ·) ∧
      (∀ id, id ∈ boxes ↔ graph.FedFromCycle id) ∧
      (∃ id ∈ boxes, graph.OnCycle id) ∧
      ((∀ id, id ∈ boxes ↔ graph.OnCycle id) ↔
        ∀ source target, graph.OnCycle source → graph.Feeding source target → graph.OnCycle target) := by
  obtain ⟨-, hlength, rfl⟩ := build_eq_cycle_iff.mp hbuild
  have hnodup : (graph.nodes.map SignalNode.id).Nodup := hids.imp Nat.ne_of_lt
  have hmem : ∀ id, id ∈ (graph.participants.map SignalNode.id).filter
      (fun id => !graph.order.contains id) ↔ graph.FedFromCycle id := by
    intro id
    rw [List.mem_filter, Bool.not_eq_true', List.contains_eq_mem, decide_eq_false_iff_not]
    constructor
    · exact fun ⟨hid, hmissing⟩ => (SignalGraph.notMem_order_iff hnodup hid).mp hmissing
    · exact fun hfed => ⟨hfed.mem_participants,
        (SignalGraph.notMem_order_iff hnodup hfed.mem_participants).mpr hfed⟩
  refine ⟨(hids.sublist (List.filter_sublist.map SignalNode.id)).filter _, hmem, ?_, ?_⟩
  · obtain ⟨id, hcycle⟩ : ∃ id, graph.OnCycle id := by
      by_contra hnone
      exact hlength ((SignalGraph.length_order_iff_acyclic hnodup).mpr (not_exists.mp hnone))
    exact ⟨id, (hmem id).mpr hcycle.fedFromCycle, hcycle⟩
  · simp only [hmem]
    constructor
    · intro hexact source target hsource hfeeding
      exact (hexact target).mp ⟨source, hsource, .single hfeeding⟩
    · intro hclosed id
      refine ⟨?_, SignalGraph.OnCycle.fedFromCycle⟩
      rintro ⟨source, hsource, hpath⟩
      induction hpath with
      | refl => exact hsource
      | tail _ hfeeding ih => exact hclosed _ _ ih hfeeding

/-- Two boxes feed each other, and one of them a third, which feeds a fourth. A fifth box feeds one of the
two. The wire from the fourth back to the first goes over a box that takes no part. -/
def entangled : SignalGraph :=
  { nodes := [⟨0, true, true, 2, [true]⟩, ⟨1, true, true, 2, [true]⟩, ⟨2, true, true, 2, [true]⟩,
      ⟨3, true, true, 2, [true]⟩, ⟨4, true, false, 1, [true]⟩, ⟨5, false, false, 1, [true]⟩]
    edges := [⟨0, 0, 1, 0, true⟩, ⟨1, 0, 0, 0, true⟩, ⟨1, 0, 2, 0, true⟩, ⟨2, 0, 3, 1, true⟩,
      ⟨4, 0, 0, 1, true⟩, ⟨3, 0, 5, 0, true⟩, ⟨5, 0, 0, 1, true⟩] }

/-- The third and the fourth box are reported with the two that feed each other. -/
theorem cycle_reports_what_it_feeds_entangled :
    build (0 : Int) entangled 44100.0 64 = .error (.cycle [0, 1, 2, 3]) ∧ entangled.FedFromCycle 3 ∧
      ¬entangled.FedFromCycle 4 := by
  have hbuild : build (0 : Int) entangled 44100.0 64 = .error (.cycle [0, 1, 2, 3]) := rfl
  have h := cycle_reports_what_it_feeds (by decide) hbuild
  exact ⟨hbuild, (h.2.1 3).mp (by decide), fun hfed => absurd ((h.2.1 4).mpr hfed) (by decide)⟩

/-- The fourth box is on no cycle, since no wire leads on from it to a box that takes part. -/
theorem cycle_reports_a_box_off_it :
    build (0 : Int) entangled 44100.0 64 = .error (.cycle [0, 1, 2, 3]) ∧ ¬entangled.OnCycle 3 := by
  have hlast : ∀ edge ∈ entangled.wires, edge.source ≠ 3 := by decide
  refine ⟨rfl, fun hcycle => ?_⟩
  obtain ⟨next, ⟨edge, hedge, hsource, -⟩, -⟩ := Relation.TransGen.head'_iff.mp hcycle
  exact hlast edge hedge hsource

end Chain

end Patchbay
