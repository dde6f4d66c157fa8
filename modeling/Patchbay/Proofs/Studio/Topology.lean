import Patchbay.Proofs.Signal.Ties
import Patchbay.Proofs.Patch.Walks
import Patchbay.Proofs.Studio.Running
import Patchbay.Proofs.Studio.Sane

/-!
# What the order of execution owes to history

Two patches that run and have the same signal boxes and the same signal wires, made in whatever order,
execute the same boxes, and execute them by depth. In what order the wires were made shows only where one
box leads to several: it decides which of these come first.
-/

namespace Patchbay

/-- Well-wired patches with the same signal boxes and the same signal wires have the same topology. -/
theorem Patch.Wired.sameTopology {first second : Patch} (hfirst : first.Wired) (hsecond : second.Wired)
    (hboxes : second.signalGraph.nodes = first.signalGraph.nodes)
    (hwires : ∀ wire, wire ∈ second.signalGraph.edges ↔ wire ∈ first.signalGraph.edges) :
    SignalGraph.SameTopology first.signalGraph second.signalGraph :=
  ⟨hboxes, (List.perm_ext_iff_of_nodup (hfirst.nodup_connections.filter _)
    (hsecond.nodup_connections.filter _)).mpr fun wire => (hwires wire).symm⟩

namespace Studio

/-- Take two patches that run, with the same signal boxes and the same signal wires, whatever moves have
led to them. Either both have an order of execution or neither has one. Both orders consist of the same
boxes, and at each place they have boxes of the same depth, which is how long rows of wires lead to a box.
They are the same if the wires that leave a box lead to the same boxes in turn. -/
theorem order_of_topology {first second : Patch} (hfirst : Arises first) (hsecond : Arises second)
    (hrunning : first.engine.running = true) (hrunningSecond : second.engine.running = true)
    (hboxes : second.signalGraph.nodes = first.signalGraph.nodes)
    (hwires : ∀ wire, wire ∈ second.signalGraph.edges ↔ wire ∈ first.signalGraph.edges) :
    Option.Rel List.Perm first.chainOrder? second.chainOrder? ∧
      first.chainOrder?.map (List.map (Order.depth first.signalGraph.feeds)) =
        second.chainOrder?.map (List.map (Order.depth first.signalGraph.feeds)) ∧
      ((∀ id, second.signalGraph.turns id = first.signalGraph.turns id) →
        second.chainOrder? = first.chainOrder?) := by
  have hintact := hfirst.intact
  have hintactSecond := hsecond.intact
  have htopology := hintact.wired.sameTopology hintactSecond.wired hboxes hwires
  have hids := hintact.wired.sound.nodup
  have hlength := (htopology.order_perm hids).length_eq
  rw [hintact.upkept.chainOrder?_eq hintact.wired hrunning,
    hintactSecond.upkept.chainOrder?_eq hintactSecond.wired hrunningSecond, htopology.participants, ← hlength]
  split
  · exact ⟨.some (htopology.order_perm hids), congrArg some (htopology.map_depth_order hids),
      fun hturns => congrArg some (htopology.order_eq hids hturns)⟩
  · exact ⟨.none, rfl, fun _ => rfl⟩

/-- An oscillator, two multiplications and an output. -/
def quartet : List Move := [
  .operate 0 (.createFromText "osc~ 440"), .operate 0 (.createFromText "*~"),
  .operate 0 (.createFromText "*~"), .operate 0 (.createFromText "dac~ 1")]

/-- The oscillator leads to both multiplications, and these to the output. -/
def spread : List Move :=
  quartet ++ [.operate 0 (.start 44100.0 1), .operate 0 (.connect 0 0 1 0),
    .operate 0 (.connect 0 0 2 0), .operate 0 (.connect 1 0 3 0), .operate 0 (.connect 2 0 3 0)]

/-- The same wires made in another order, one of them twice, and all before the start. -/
def spreadAnew : List Move :=
  quartet ++ [.operate 0 (.connect 2 0 3 0), .operate 0 (.connect 0 0 2 0),
    .operate 0 (.connect 1 0 3 0), .operate 0 (.connect 0 0 1 0), .operate 0 (.disconnect 0 0 2 0),
    .operate 0 (.connect 0 0 2 0), .operate 0 (.start 44100.0 1)]

/-- The signal boxes of the quartet. -/
def quartetNodes : List SignalNode :=
  [⟨0, true, false, 2, [true]⟩, ⟨1, true, true, 2, [true]⟩, ⟨2, true, true, 2, [true]⟩,
    ⟨3, true, false, 1, []⟩]

/-- A patch to which moves lead in a fresh studio, with what it is compared by. -/
theorem exists_arises {moves : List Move} {nodes : List SignalNode} {edges : List Connection}
    {order? : Option (List Nat)}
    (h : ((fresh.moveAll moves).patch? 0).map (fun patch => (patch.engine.running,
      patch.signalGraph.nodes, patch.signalGraph.edges, patch.chainOrder?)) =
        some (true, nodes, edges, order?)) :
    ∃ patch, Arises patch ∧ (fresh.moveAll moves).patch? 0 = some patch ∧
      patch.engine.running = true ∧ patch.signalGraph = ⟨nodes, edges⟩ ∧ patch.chainOrder? = order? := by
  obtain ⟨patch, hpatch, hfacts⟩ := Option.map_eq_some_iff.mp h
  obtain ⟨hrunning, rfl, rfl, rfl⟩ := by simpa only [Prod.mk.injEq] using hfacts
  exact ⟨patch, arises_of_fresh hpatch, hpatch, hrunning, rfl, rfl⟩

/-- Both patches have the same order of execution. -/
theorem order_of_topology_spread : ∃ first second,
    (fresh.moveAll spread).patch? 0 = some first ∧ (fresh.moveAll spreadAnew).patch? 0 = some second ∧
      first.signalGraph.edges ≠ second.signalGraph.edges ∧
      second.chainOrder? = first.chainOrder? := by
  obtain ⟨first, harises, hfirst, hrunning, hgraph, -⟩ := exists_arises
    (by decide +kernel : ((fresh.moveAll spread).patch? 0).map _ =
      some (true, quartetNodes, [⟨0, 0, 1, 0, true⟩, ⟨0, 0, 2, 0, true⟩, ⟨1, 0, 3, 0, true⟩,
        ⟨2, 0, 3, 0, true⟩], some [0, 1, 2, 3]))
  obtain ⟨second, harisesSecond, hsecond, hrunningSecond, hgraphSecond, -⟩ := exists_arises
    (by decide +kernel : ((fresh.moveAll spreadAnew).patch? 0).map _ =
      some (true, quartetNodes, [⟨2, 0, 3, 0, true⟩, ⟨1, 0, 3, 0, true⟩, ⟨0, 0, 1, 0, true⟩,
        ⟨0, 0, 2, 0, true⟩], some [0, 1, 2, 3]))
  have hwires : ∀ wire, wire ∈ second.signalGraph.edges ↔ wire ∈ first.signalGraph.edges := by
    intro wire
    rw [hgraph, hgraphSecond]
    simp only [List.mem_cons, List.not_mem_nil]
    tauto
  have hturns : ∀ id, second.signalGraph.turns id = first.signalGraph.turns id := by
    intro id
    rw [hgraph, hgraphSecond]
    match id with
    | 0 | 1 | 2 => decide
    | _ + 3 => rfl
  refine ⟨first, second, hfirst, hsecond, by rw [hgraph, hgraphSecond]; decide, ?_⟩
  exact (order_of_topology harises harisesSecond hrunning hrunningSecond
    (by rw [hgraph, hgraphSecond]) hwires).2.2 hturns

/-- If the wire to the first multiplication is taken away and made again, the second comes first, though
the boxes and the wires are the same. -/
theorem order_depends_on_history : ∃ first second, Arises first ∧ Arises second ∧
    first.engine.running = true ∧ second.engine.running = true ∧
    second.signalGraph.nodes = first.signalGraph.nodes ∧
    (∀ wire, wire ∈ second.signalGraph.edges ↔ wire ∈ first.signalGraph.edges) ∧
    first.chainOrder? = some [0, 1, 2, 3] ∧ second.chainOrder? = some [0, 2, 1, 3] := by
  obtain ⟨first, harises, -, hrunning, hgraph, horder⟩ := exists_arises
    (by decide +kernel : ((fresh.moveAll spread).patch? 0).map _ =
      some (true, quartetNodes, [⟨0, 0, 1, 0, true⟩, ⟨0, 0, 2, 0, true⟩, ⟨1, 0, 3, 0, true⟩,
        ⟨2, 0, 3, 0, true⟩], some [0, 1, 2, 3]))
  obtain ⟨second, harisesSecond, -, hrunningSecond, hgraphSecond, horderSecond⟩ := exists_arises
    (by decide +kernel : ((fresh.moveAll (spread ++ [.operate 0 (.disconnect 0 0 1 0),
        .operate 0 (.connect 0 0 1 0)])).patch? 0).map _ =
      some (true, quartetNodes, [⟨0, 0, 2, 0, true⟩, ⟨1, 0, 3, 0, true⟩, ⟨2, 0, 3, 0, true⟩,
        ⟨0, 0, 1, 0, true⟩], some [0, 2, 1, 3]))
  refine ⟨first, second, harises, harisesSecond, hrunning, hrunningSecond,
    by rw [hgraph, hgraphSecond], fun wire => ?_, horder, horderSecond⟩
  rw [hgraph, hgraphSecond]
  simp only [List.mem_cons, List.not_mem_nil]
  tauto

end Studio

end Patchbay
