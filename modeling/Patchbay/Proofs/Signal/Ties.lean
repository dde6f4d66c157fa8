import Patchbay.Proofs.Signal.Schedule

/-!
# Ties in the order of execution

Several boxes may become free at once, when the box is taken that is the last to feed each of them. They
come in the order of the wires that lead to them from there, of parallel wires the last. This is all that
the order of execution owes to the order of the wires.

Boxes at different depths are never tied: a box comes before all boxes to which more wires in a row lead.
-/

namespace Patchbay.Order

variable {boxes taken queue : List Nat} {feeds others : Feeds} {waiting : Nat → Nat} {box : Nat}

/-! ### Boxes that are tied -/

/-- The same wires in two orders lead as many times from one box to another. -/
theorem fedBy_perm (h : feeds.Perm others) (box : Nat) : (fedBy feeds box).Perm (fedBy others box) :=
  (h.filter _).map Prod.snd

/-- From each box the same wires lead to the same boxes in turn, if of parallel wires the last counts. -/
structure SameTurns (feeds others : Feeds) : Prop where
  perm : feeds.Perm others
  turns : ∀ box, (fedBy feeds box).dedup = (fedBy others box).dedup

/-- Wires that lead to the same boxes in turn free the same boxes in turn. -/
theorem SameTurns.release_eq (h : SameTurns feeds others) {box : Nat}
    (henough : ∀ other, (fedBy feeds box).count other ≤ waiting other) :
    release waiting (fedBy others box) = release waiting (fedBy feeds box) := by
  have hcount : ∀ other, (fedBy others box).count other = (fedBy feeds box).count other := fun other =>
    ((fedBy_perm h.perm box).count_eq other).symm
  refine Prod.ext (funext fun other => ?_) ?_
  · rw [release_fst, release_fst, hcount]
  · rw [release_snd_eq waiting _ henough, release_snd_eq waiting _ fun other => hcount other ▸ henough other,
      ← h.turns box]
    simp only [hcount]

/-- So the boxes are taken off the queue in the same order. -/
theorem SameTurns.run_eq (h : SameTurns feeds others) (hinside : ∀ feed ∈ feeds, feed.2 ∈ boxes)
    (hprogress : Progress boxes feeds taken queue waiting) (steps : Nat) :
    run others steps queue waiting = run feeds steps queue waiting := by
  induction steps generalizing taken queue waiting with
  | zero => rfl
  | succ steps ih =>
    cases queue with
    | nil => rfl
    | cons box queue =>
      rw [run, run, h.release_eq hprogress.count_fedBy_le]
      exact congrArg (box :: ·) (ih (hprogress.take hinside))

/-- The same wires end at a box in whatever order they are. -/
theorem inDegree_perm (h : feeds.Perm others) : inDegree others = inDegree feeds :=
  funext fun _ => (h.countP_eq _).symm

/-- Boxes are executed in the same order if the wires lead to the same boxes in turn. -/
theorem SameTurns.execution_eq (h : SameTurns feeds others) (hnodup : boxes.Nodup)
    (hinside : ∀ feed ∈ feeds, feed.2 ∈ boxes) : execution boxes others = execution boxes feeds := by
  rw [execution, execution, inDegree_perm h.perm]
  exact h.run_eq hinside (.start hnodup) _

/-- In whatever order the wires are, the same boxes are executed. -/
theorem execution_perm (h : feeds.Perm others) (hnodup : boxes.Nodup)
    (hinside : ∀ feed ∈ feeds, feed.1 ∈ boxes ∧ feed.2 ∈ boxes) :
    (execution boxes feeds).Perm (execution boxes others) := by
  have htargets : ∀ feed ∈ feeds, feed.2 ∈ boxes := fun feed hfeed => (hinside feed hfeed).2
  have hothers : ∀ feed ∈ others, feed.1 ∈ boxes ∧ feed.2 ∈ boxes := fun feed hfeed =>
    hinside feed (h.mem_iff.mpr hfeed)
  have hotherTargets : ∀ feed ∈ others, feed.2 ∈ boxes := fun feed hfeed => (hothers feed hfeed).2
  have hfeeding : Feeding others = Feeding feeds := by
    funext source target
    exact propext h.mem_iff.symm
  rw [List.perm_ext_iff_of_nodup (nodup_execution hnodup htargets) (nodup_execution hnodup hotherTargets)]
  intro box
  by_cases hbox : box ∈ boxes
  · rw [mem_execution_iff_not_fedFromCycle hnodup hinside hbox,
      mem_execution_iff_not_fedFromCycle hnodup hothers hbox, FedFromCycle, FedFromCycle, hfeeding]
  · exact iff_of_false (fun hmem => hbox (execution_subset hnodup htargets hmem))
      fun hmem => hbox (execution_subset hnodup hotherTargets hmem)

/-! ### Boxes at different depths -/

/-- So many wires in a row lead to a box. -/
def LedTo (feeds : Feeds) : Nat → Nat → Prop
  | 0, _ => True
  | length + 1, box => ∃ feed ∈ feeds, feed.2 = box ∧ LedTo feeds length feed.1

/-- How deep a box stands, told by all lengths of rows of wires that lead to it. -/
def depth (feeds : Feeds) (box : Nat) : Set Nat := {length | LedTo feeds length box}

/-- The order of the wires has nothing to do with the depth of a box. -/
theorem depth_perm (h : feeds.Perm others) : depth others = depth feeds := by
  funext box
  ext length
  show LedTo others length box ↔ LedTo feeds length box
  induction length generalizing box with
  | zero => rfl
  | succ length ih => simp only [LedTo, ih, h.mem_iff]

/-- How the boxes taken and the queue are ordered by depth: no box comes behind a deeper one, and those in
the queue are at most one wire deeper than the one in front. -/
structure Layered (feeds : Feeds) (taken queue : List Nat) : Prop where
  sorted : (taken ++ queue).Pairwise fun first second => depth feeds first ⊆ depth feeds second
  near : ∀ front ∈ queue.head?, ∀ box ∈ queue, ∀ length,
    LedTo feeds (length + 1) box → LedTo feeds length front

/-- At first there are only boxes to which no wires lead. -/
theorem Layered.start (boxes : List Nat) (feeds : Feeds) :
    Layered feeds [] (boxes.filter fun box => inDegree feeds box == 0) := by
  have hfree : ∀ box ∈ boxes.filter fun box => inDegree feeds box == 0, ∀ length,
      ¬LedTo feeds (length + 1) box := by
    rintro box hbox length ⟨feed, hfeed, htarget, -⟩
    have hzero : inDegree feeds box = 0 := by simpa using (List.mem_filter.mp hbox).2
    rw [← unmet_nil, unmet_eq_zero_iff] at hzero
    exact List.not_mem_nil (hzero feed hfeed htarget)
  refine ⟨List.pairwise_of_forall_mem_list fun first hfirst second _ length hled => ?_,
    fun _ _ box hbox length hled => absurd hled (hfree box hbox length)⟩
  cases length with
  | zero => trivial
  | succ length => exact absurd hled (hfree first hfirst length)

/-- A box that is freed by the box in front is one wire deeper than that. -/
theorem Layered.take (h : Layered feeds taken (box :: queue))
    (hprogress : Progress boxes feeds taken (box :: queue) waiting) :
    Layered feeds (taken ++ [box]) (queue ++ (release waiting (fedBy feeds box)).2) := by
  let freed := (release waiting (fedBy feeds box)).2
  have hnear : ∀ other ∈ box :: queue, ∀ length, LedTo feeds (length + 1) other → LedTo feeds length box :=
    h.near box rfl
  obtain ⟨-, hqueue, hacross⟩ := List.pairwise_append.mp h.sorted
  have hbefore : ∀ other ∈ taken ++ [box], depth feeds other ⊆ depth feeds box := by
    intro other hother
    rcases List.mem_append.mp hother with htaken | hlast
    · exact hacross other htaken box List.mem_cons_self
    · rw [List.mem_singleton.mp hlast]
  have hfreed : ∀ other ∈ freed, ∀ length, LedTo feeds (length + 1) other ↔ LedTo feeds length box := by
    intro other hother length
    obtain ⟨hpos, hall⟩ := (mem_release_snd waiting _ hprogress.count_fedBy_le other).mp hother
    constructor
    · rintro ⟨feed, hfeed, htarget, hled⟩
      have hzero : unmet feeds (taken ++ [box]) other = 0 := by
        rw [hprogress.waiting_eq, unmet_eq_add feeds hprogress.notMem] at hall
        omega
      exact hbefore feed.1 ((unmet_eq_zero_iff feeds _ other).mp hzero feed hfeed htarget) hled
    · intro hled
      obtain ⟨feed, hfeed, rfl⟩ := List.mem_map.mp (List.count_pos_iff.mp hpos)
      obtain ⟨hmem, hsource⟩ := List.mem_filter.mp hfeed
      exact ⟨feed, hmem, rfl, beq_iff_eq.mp hsource ▸ hled⟩
  have hdeeper : ∀ first ∈ taken ++ box :: queue, ∀ second ∈ freed,
      depth feeds first ⊆ depth feeds second := by
    intro first hfirst second hsecond length hled
    cases length with
    | zero => trivial
    | succ length =>
      refine (hfreed second hsecond length).mpr ?_
      rcases List.mem_append.mp hfirst with htaken | hmem
      · exact hnear box List.mem_cons_self length (hacross first htaken box List.mem_cons_self hled)
      · exact hnear first hmem length hled
  constructor
  · have hsplit : taken ++ [box] ++ (queue ++ freed) = (taken ++ box :: queue) ++ freed := by simp
    rw [show (release waiting (fedBy feeds box)).2 = freed from rfl, hsplit, List.pairwise_append]
    refine ⟨h.sorted, List.pairwise_of_forall_mem_list fun first hfirst second hsecond length hled => ?_,
      hdeeper⟩
    cases length with
    | zero => trivial
    | succ length => exact (hfreed second hsecond length).mpr ((hfreed first hfirst length).mp hled)
  · intro front hfront other hother length hled
    have hled : LedTo feeds length box := by
      rcases List.mem_append.mp hother with hmem | hmem
      · exact hnear other (List.mem_cons_of_mem _ hmem) length hled
      · exact (hfreed other hmem length).mp hled
    rcases List.mem_append.mp (List.mem_of_mem_head? hfront) with hmem | hmem
    · exact (List.pairwise_cons.mp hqueue).1 front hmem hled
    · exact hdeeper box (by simp) front hmem hled

/-- As long as boxes are taken off the queue, none comes behind a deeper one. -/
theorem Layered.run (h : Layered feeds taken queue) (hprogress : Progress boxes feeds taken queue waiting)
    (hinside : ∀ feed ∈ feeds, feed.2 ∈ boxes) (steps : Nat) :
    (taken ++ run feeds steps queue waiting).Pairwise fun first second =>
      depth feeds first ⊆ depth feeds second := by
  induction steps generalizing taken queue waiting with
  | zero => simpa [Order.run] using (List.pairwise_append.mp h.sorted).1
  | succ steps ih =>
    cases queue with
    | nil => simpa [Order.run] using h.sorted
    | cons box queue => simpa [Order.run] using ih (h.take hprogress) (hprogress.take hinside)

/-- In the order of execution no box comes behind a deeper one. -/
theorem pairwise_execution (hnodup : boxes.Nodup) (hinside : ∀ feed ∈ feeds, feed.2 ∈ boxes) :
    (execution boxes feeds).Pairwise fun first second => depth feeds first ⊆ depth feeds second := by
  simpa [execution] using (Layered.start boxes feeds).run (.start hnodup) hinside boxes.length

/-- In whatever order the wires are, at each place of the order of execution stands a box of the same
depth. -/
theorem map_depth_execution (h : feeds.Perm others) (hnodup : boxes.Nodup)
    (hinside : ∀ feed ∈ feeds, feed.1 ∈ boxes ∧ feed.2 ∈ boxes) :
    (execution boxes feeds).map (depth feeds) = (execution boxes others).map (depth feeds) := by
  have hsorted := pairwise_execution hnodup fun feed hfeed => (hinside feed hfeed).2
  have hsortedOther : (execution boxes others).Pairwise fun first second =>
      depth others first ⊆ depth others second :=
    pairwise_execution hnodup fun feed hfeed => (hinside feed (h.mem_iff.mpr hfeed)).2
  rw [depth_perm h] at hsortedOther
  refine ((execution_perm h hnodup hinside).map _).eq_of_pairwise (fun _ _ _ _ hle hge => ?_)
    (List.pairwise_map.mpr hsorted) (List.pairwise_map.mpr hsortedOther)
  exact Set.Subset.antisymm hle hge

end Patchbay.Order

namespace Patchbay.SignalGraph

variable {graph other : SignalGraph}

/-! ### Graphs that differ in the order of their wires -/

/-- The wires that count, as pairs of boxes. -/
def feeds (graph : SignalGraph) : Order.Feeds := graph.wires.map fun edge => (edge.source, edge.target)

/-- The boxes that wires lead to from a box in turn. Of parallel wires the last counts. -/
def turns (graph : SignalGraph) (id : Nat) : List Nat :=
  ((graph.wires.filter fun edge => edge.source == id).map Connection.target).dedup

/-- Two graphs have the same boxes, and the same wires in whatever order. -/
structure SameTopology (graph other : SignalGraph) : Prop where
  nodes : other.nodes = graph.nodes
  edges : graph.edges.Perm other.edges

/-- The turns are those of the pairs of boxes. -/
theorem dedup_fedBy_feeds (graph : SignalGraph) (id : Nat) :
    (Order.fedBy graph.feeds id).dedup = graph.turns id := by
  rw [Order.fedBy, feeds, List.filter_map, List.map_map]
  rfl

namespace SameTopology

/-- The same boxes take part. -/
theorem participants (h : SameTopology graph other) : other.participants = graph.participants :=
  congrArg (List.filter SignalNode.ready) h.nodes

/-- The same wires count. -/
theorem feeds_perm (h : SameTopology graph other) : graph.feeds.Perm other.feeds := by
  rw [feeds, feeds, wires, wires, h.participants]
  exact (h.edges.filter _).map _

variable (hids : (graph.nodes.map SignalNode.id).Nodup)
include hids

/-- The same boxes have a place in the order. -/
theorem order_perm (h : SameTopology graph other) : graph.order.Perm other.order := by
  rw [order, order, h.participants]
  exact Order.execution_perm h.feeds_perm (nodup_participants hids) graph.wires_inside

/-- At each place of the order stands a box of the same depth. -/
theorem map_depth_order (h : SameTopology graph other) :
    graph.order.map (Order.depth graph.feeds) = other.order.map (Order.depth graph.feeds) := by
  rw [order, order, h.participants]
  exact Order.map_depth_execution h.feeds_perm (nodup_participants hids) graph.wires_inside

/-- The order is the same if the wires lead from each box to the same boxes in turn. -/
theorem order_eq (h : SameTopology graph other) (hturns : ∀ id, other.turns id = graph.turns id) :
    other.order = graph.order := by
  have hsame : Order.SameTurns graph.feeds other.feeds :=
    ⟨h.feeds_perm, fun id => by rw [dedup_fedBy_feeds, dedup_fedBy_feeds, hturns]⟩
  rw [order, order, h.participants]
  exact hsame.execution_eq (nodup_participants hids) fun feed hfeed => (graph.wires_inside feed hfeed).2

end SameTopology

end Patchbay.SignalGraph
