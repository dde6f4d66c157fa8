import Patchbay.Proofs.Patch.Copy
import Patchbay.Proofs.Signal.Schedule

/-!
# Chains under other numbers

Nothing in a chain goes by the numbers of boxes but which box is meant. If boxes get other numbers, each
its own, and are listed in the same order with the same wires between them in the same order, then they
are taken off the queue in the same order, each finds what feeds it at the same place, and a box works in
place if it did so before.
-/

namespace Patchbay

namespace Apart

variable {place : Nat → Nat} {ids : List Nat} {first second : Nat}

/-- Places tell numbers apart. -/
theorem beq (h : Apart place ids) (hfirst : first ∈ ids) (hsecond : second ∈ ids) :
    (place first == place second) = (first == second) := by
  rw [Bool.eq_iff_iff, beq_iff_eq, beq_iff_eq]
  exact ⟨h first hfirst second hsecond, congrArg place⟩

/-- A number is in a list if its place is among the places of the list. -/
theorem contains (h : Apart place ids) {part : List Nat} (hpart : part ⊆ ids) (hid : first ∈ ids) :
    (part.map place).contains (place first) = part.contains first := by
  rw [Bool.eq_iff_iff, List.contains_iff_mem, List.contains_iff_mem, List.mem_map]
  constructor
  · rintro ⟨other, hother, hsame⟩
    exact h other (hpart hother) first hid hsame ▸ hother
  · exact fun hmem => ⟨first, hmem, rfl⟩

end Apart

namespace Order

variable {place : Nat → Nat} {ids : List Nat} {feeds : Feeds}

/-- Both ends of every wire are among the boxes. -/
def Feeds.Within (feeds : Feeds) (ids : List Nat) : Prop :=
  ∀ feed ∈ feeds, feed.1 ∈ ids ∧ feed.2 ∈ ids

/-- Who feeds whom under other numbers. -/
def Feeds.renumber (place : Nat → Nat) (feeds : Feeds) : Feeds :=
  feeds.map fun feed => (place feed.1, place feed.2)

/-- As many wires end at a box as before. -/
theorem inDegree_renumber (h : Apart place ids) (hfeeds : feeds.Within ids) {box : Nat}
    (hbox : box ∈ ids) : inDegree (feeds.renumber place) (place box) = inDegree feeds box := by
  unfold inDegree Feeds.renumber
  rw [List.countP_map]
  refine List.countP_congr fun feed hfeed => ?_
  simp only [Function.comp_apply, h.beq (hfeeds feed hfeed).2 hbox]

/-- A box feeds the same boxes as before. -/
theorem fedBy_renumber (h : Apart place ids) (hfeeds : feeds.Within ids) {box : Nat}
    (hbox : box ∈ ids) : fedBy (feeds.renumber place) (place box) = (fedBy feeds box).map place := by
  unfold fedBy Feeds.renumber
  rw [List.filter_map, List.map_map, List.map_map]
  have hfilter : feeds.filter ((fun feed => feed.1 == place box) ∘
      fun feed => (place feed.1, place feed.2)) = feeds.filter fun feed => feed.1 == box :=
    List.filter_congr fun feed hfeed => h.beq (hfeeds feed hfeed).1 hbox
  rw [hfilter]
  rfl

/-- The boxes that a box feeds are among the boxes. -/
theorem fedBy_subset (hfeeds : feeds.Within ids) (box : Nat) : fedBy feeds box ⊆ ids := by
  intro other hother
  obtain ⟨feed, hfeed, rfl⟩ := List.mem_map.mp hother
  exact (hfeeds feed (List.mem_filter.mp hfeed).1).2

/-- Only boxes that a wire is taken off become free. -/
theorem release_subset (waiting : Nat → Nat) (boxes : List Nat) :
    (release waiting boxes).2 ⊆ boxes := by
  induction boxes generalizing waiting with
  | nil => exact List.Subset.refl []
  | cons box rest ih =>
    simp only [release]
    split
    · exact List.cons_subset_cons box (ih _)
    · exact List.subset_cons_of_subset box (ih _)

/-- Taking wires off frees the same boxes as before. -/
theorem release_renumber (h : Apart place ids) {boxes : List Nat} (hboxes : boxes ⊆ ids)
    {waiting later : Nat → Nat} (hwaiting : ∀ box ∈ ids, later (place box) = waiting box) :
    (∀ box ∈ ids, (release later (boxes.map place)).1 (place box) = (release waiting boxes).1 box) ∧
      (release later (boxes.map place)).2 = (release waiting boxes).2.map place := by
  induction boxes generalizing waiting later with
  | nil => exact ⟨hwaiting, rfl⟩
  | cons box rest ih =>
    have hbox := hboxes List.mem_cons_self
    obtain ⟨hafter, hfree⟩ := @ih (List.cons_subset.mp hboxes).2
      (fun other => if other = box then waiting box - 1 else waiting other)
      (fun other => if other = place box then later (place box) - 1 else later other) (by
        intro other hother
        have hsame : place other = place box ↔ other = box :=
          ⟨h other hother box hbox, congrArg place⟩
        simp only [hsame, hwaiting box hbox, hwaiting other hother])
    simp only [List.map_cons, release]
    refine ⟨hafter, ?_⟩
    rw [hfree, hwaiting box hbox]
    split <;> rfl

/-- The boxes in a queue are taken in the same order as before. -/
theorem run_renumber (h : Apart place ids) (hfeeds : feeds.Within ids) (steps : Nat)
    {queue : List Nat} (hqueue : queue ⊆ ids) {waiting later : Nat → Nat}
    (hwaiting : ∀ box ∈ ids, later (place box) = waiting box) :
    run (feeds.renumber place) steps (queue.map place) later =
      (run feeds steps queue waiting).map place := by
  induction steps generalizing queue waiting later with
  | zero => rfl
  | succ steps ih =>
    cases queue with
    | nil => rfl
    | cons box queue =>
      obtain ⟨hbox, hrest⟩ := List.cons_subset.mp hqueue
      obtain ⟨hafter, hfree⟩ := release_renumber h (fedBy_subset hfeeds box) hwaiting
      have hnext : queue ++ (release waiting (fedBy feeds box)).2 ⊆ ids :=
        List.append_subset.mpr
          ⟨hrest, List.Subset.trans (release_subset waiting _) (fedBy_subset hfeeds box)⟩
      simp only [List.map_cons, run, fedBy_renumber h hfeeds hbox, hfree, ← List.map_append]
      rw [ih hnext hafter]

/-- The order of execution is the same as before. -/
theorem execution_renumber (h : Apart place ids) (hfeeds : feeds.Within ids) {boxes : List Nat}
    (hboxes : boxes ⊆ ids) :
    execution (boxes.map place) (feeds.renumber place) = (execution boxes feeds).map place := by
  have hfirst : (boxes.map place).filter (fun box => inDegree (feeds.renumber place) box == 0) =
      (boxes.filter fun box => inDegree feeds box == 0).map place := by
    rw [List.filter_map]
    refine congrArg (List.map place) (List.filter_congr fun box hbox => ?_)
    simp only [Function.comp_apply, inDegree_renumber h hfeeds (hboxes hbox)]
  unfold execution
  rw [hfirst, List.length_map]
  exact run_renumber h hfeeds _ (fun box hbox => hboxes (List.mem_filter.mp hbox).1)
    fun box hbox => inDegree_renumber h hfeeds hbox

end Order

/-! ### Graphs -/

/-- The box under another number. -/
def SignalNode.renumber (place : Nat → Nat) (node : SignalNode) : SignalNode :=
  { node with id := place node.id }

namespace SignalGraph

/-- The graph with other numbers for its boxes. -/
def renumber (place : Nat → Nat) (graph : SignalGraph) : SignalGraph :=
  { nodes := graph.nodes.map (SignalNode.renumber place)
    edges := graph.edges.map (Connection.renumber place) }

/-- The boxes of the graph and the ends of its wires are among the given numbers. -/
structure Within (graph : SignalGraph) (ids : List Nat) : Prop where
  nodes : ∀ node ∈ graph.nodes, node.id ∈ ids
  edges : ∀ edge ∈ graph.edges, edge.source ∈ ids ∧ edge.target ∈ ids

variable {place : Nat → Nat} {ids : List Nat} {graph : SignalGraph}

/-- The same boxes take part. -/
theorem participants_renumber (place : Nat → Nat) (graph : SignalGraph) :
    (graph.renumber place).participants = graph.participants.map (SignalNode.renumber place) := by
  simp only [participants, renumber, List.filter_map]
  rfl

/-- The numbers of those that take part. -/
theorem ids_participants_renumber (place : Nat → Nat) (graph : SignalGraph) :
    (graph.renumber place).participants.map SignalNode.id =
      (graph.participants.map SignalNode.id).map place := by
  rw [participants_renumber, List.map_map, List.map_map]
  rfl

/-- Those that take part are among the boxes. -/
theorem Within.participants (hwithin : graph.Within ids) :
    graph.participants.map SignalNode.id ⊆ ids := by
  intro id hid
  obtain ⟨node, hnode, rfl⟩ := List.mem_map.mp hid
  exact hwithin.nodes node (List.mem_filter.mp hnode).1

/-- The wires between those that take part are among the wires. -/
theorem Within.wires (hwithin : graph.Within ids) :
    ∀ wire ∈ graph.wires, wire.source ∈ ids ∧ wire.target ∈ ids := fun wire hwire =>
  hwithin.edges wire (List.mem_filter.mp hwire).1

/-- The same wires join those that take part. -/
theorem wires_renumber (h : Apart place ids) (hwithin : graph.Within ids) :
    (graph.renumber place).wires = graph.wires.map (Connection.renumber place) := by
  simp only [wires, ids_participants_renumber]
  rw [renumber, List.filter_map]
  refine congrArg (List.map (Connection.renumber place)) (List.filter_congr fun wire hwire => ?_)
  obtain ⟨hsource, htarget⟩ := hwithin.edges wire hwire
  simp only [Function.comp_apply, Connection.renumber, h.contains hwithin.participants hsource,
    h.contains hwithin.participants htarget]

/-- The order of execution is the same. -/
theorem order_renumber (h : Apart place ids) (hwithin : graph.Within ids) :
    (graph.renumber place).order = graph.order.map place := by
  have hfeeds : Order.Feeds.Within (graph.wires.map fun edge => (edge.source, edge.target)) ids := by
    intro feed hfeed
    obtain ⟨wire, hwire, rfl⟩ := List.mem_map.mp hfeed
    exact hwithin.wires wire hwire
  rw [order, order, ids_participants_renumber, wires_renumber h hwithin,
    ← Order.execution_renumber h hfeeds hwithin.participants]
  simp only [Order.Feeds.renumber, List.map_map]
  rfl

/-- A box is found under its other number. -/
theorem find?_renumber (h : Apart place ids) {nodes : List SignalNode}
    (hnodes : ∀ node ∈ nodes, node.id ∈ ids) {id : Nat} (hid : id ∈ ids) :
    (nodes.map (SignalNode.renumber place)).find? (fun node => node.id == place id) =
      (nodes.find? fun node => node.id == id).map (SignalNode.renumber place) := by
  rw [List.find?_map]
  refine congrArg (Option.map (SignalNode.renumber place)) (List.find?_congr fun node hnode => ?_)
  exact h.beq (hnodes node hnode) hid

/-- The same boxes are scheduled. -/
theorem schedule_renumber (h : Apart place ids) (hwithin : graph.Within ids)
    (hids : (graph.nodes.map SignalNode.id).Nodup) :
    (graph.renumber place).schedule = graph.schedule.map (SignalNode.renumber place) := by
  rw [schedule, schedule, order_renumber h hwithin, participants_renumber, List.filterMap_map,
    List.map_filterMap]
  refine List.filterMap_congr fun id hid => ?_
  exact find?_renumber h (fun node hnode => hwithin.nodes node (List.mem_filter.mp hnode).1)
    (hwithin.participants (order_subset hids hid))

end SignalGraph

/-! ### Chains -/

/-- The step of the box under another number. -/
def Step.renumber (place : Nat → Nat) (step : Step) : Step := { step with id := place step.id }

/-- The chain of the boxes under other numbers. -/
def Chain.renumber {σ : Type} (place : Nat → Nat) (chain : Chain σ) : Chain σ :=
  { chain with steps := chain.steps.map (Step.renumber place) }

/-- What is in the way of a chain, told with other numbers. -/
def ChainError.renumber (place : Nat → Nat) : ChainError → ChainError
  | .cycle boxes => .cycle (boxes.map place)
  | .invalidSettings sampleRate blockSize => .invalidSettings sampleRate blockSize

namespace Chain

variable {σ : Type} {place : Nat → Nat} {ids : List Nat} {wires : List Connection}

/-- The order of the boxes under other numbers. -/
theorem order_renumber (place : Nat → Nat) (chain : Chain σ) :
    (chain.renumber place).order = chain.order.map place := by
  rw [order, order, renumber, List.map_map, List.map_map]
  rfl

/-- As many wires leave an outlet as before. -/
theorem fanOut_renumber (h : Apart place ids) (hwires : ∀ wire ∈ wires, wire.source ∈ ids)
    {source : Nat} (hsource : source ∈ ids) (outlet : Nat) :
    fanOut (wires.map (Connection.renumber place)) (place source) outlet =
      fanOut wires source outlet := by
  unfold fanOut
  rw [List.countP_map]
  refine List.countP_congr fun wire hwire => ?_
  simp only [Function.comp_apply, Connection.renumber, h.beq (hwires wire hwire) hsource]

/-- The same wires end at a box as before. -/
theorem arriving_renumber (h : Apart place ids) (hwires : ∀ wire ∈ wires, wire.target ∈ ids)
    {id : Nat} (hid : id ∈ ids) :
    (wires.map (Connection.renumber place)).filter (fun wire => wire.target == place id) =
      (wires.filter fun wire => wire.target == id).map (Connection.renumber place) := by
  rw [List.filter_map]
  refine congrArg (List.map (Connection.renumber place)) (List.filter_congr fun wire hwire => ?_)
  exact h.beq (hwires wire hwire) hid

variable {placed later : Placement}

/-- A box works in place of the same buffer as before, if it did so. -/
theorem inPlaceSource?_renumber (h : Apart place ids)
    (hwires : ∀ wire ∈ wires, wire.source ∈ ids ∧ wire.target ∈ ids)
    (hplaced : ∀ id ∈ ids, later (place id) = placed id) {node : SignalNode} (hnode : node.id ∈ ids) :
    inPlaceSource? (wires.map (Connection.renumber place)) later (node.renumber place) =
      inPlaceSource? wires placed node := by
  have harriving := arriving_renumber h (fun wire hwire => (hwires wire hwire).2) hnode
  simp only [inPlaceSource?, SignalNode.renumber, harriving]
  have hsub : ∀ wire ∈ wires.filter (fun wire => wire.target == node.id), wire ∈ wires :=
    fun wire hwire => (List.mem_filter.mp hwire).1
  generalize wires.filter (fun wire => wire.target == node.id) = arriving at hsub
  match arriving, hsub with
  | [], _ => rfl
  | [edge], hsub =>
    have hsource := (hwires edge (hsub edge List.mem_cons_self)).1
    simp only [List.map_cons, List.map_nil, Connection.renumber, hplaced edge.source hsource]
    rw [← fanOut_renumber h (fun wire hwire => (hwires wire hwire).1) hsource edge.outlet]
  | first :: second :: rest, _ => rfl

/-- A step reads the same buffers as before. -/
theorem stepOf_renumber (h : Apart place ids)
    (hwires : ∀ wire ∈ wires, wire.source ∈ ids ∧ wire.target ∈ ids)
    (hplaced : ∀ id ∈ ids, later (place id) = placed id) {node : SignalNode} (hnode : node.id ∈ ids) :
    stepOf (wires.map (Connection.renumber place)) later (node.renumber place) =
      (stepOf wires placed node).renumber place := by
  have harriving := arriving_renumber h (fun wire hwire => (hwires wire hwire).2) hnode
  unfold stepOf
  rw [inPlaceSource?_renumber h hwires hplaced hnode]
  cases inPlaceSource? wires placed node with
  | some location => rfl
  | none =>
    simp only [SignalNode.renumber, Step.renumber, harriving, Step.mk.injEq, true_and, and_true]
    refine List.map_congr_left fun inlet _ => congrArg feedOf ?_
    rw [List.filter_map, List.map_map]
    refine List.map_congr_left fun wire hwire => ?_
    have hsource := (hwires wire (List.mem_filter.mp (List.mem_filter.mp hwire).1).1).1
    simp only [Function.comp_apply, Connection.renumber, hplaced wire.source hsource]

/-- The outlets of a new step are found at the same places as before. -/
theorem place_renumber (h : Apart place ids) (hplaced : ∀ id ∈ ids, later (place id) = placed id)
    (position : Nat) {step : Step} (hstep : step.id ∈ ids) :
    ∀ id ∈ ids, Chain.place later position (step.renumber place) (place id) =
      Chain.place placed position step id := by
  intro id hid
  funext outlet
  have hsame : place id = place step.id ↔ id = step.id :=
    ⟨h id hid step.id hstep, congrArg place⟩
  simp only [Chain.place, Step.renumber, hsame, hplaced id hid]

/-- The steps of boxes are the same as before. -/
theorem stepsFrom_renumber (h : Apart place ids)
    (hwires : ∀ wire ∈ wires, wire.source ∈ ids ∧ wire.target ∈ ids) {nodes : List SignalNode}
    (hnodes : ∀ node ∈ nodes, node.id ∈ ids) (position : Nat)
    (hplaced : ∀ id ∈ ids, later (place id) = placed id) :
    stepsFrom (wires.map (Connection.renumber place)) position later
        (nodes.map (SignalNode.renumber place)) =
      (stepsFrom wires position placed nodes).map (Step.renumber place) := by
  induction nodes generalizing position later placed with
  | nil => rfl
  | cons node rest ih =>
    have hnode := hnodes node List.mem_cons_self
    have hstep : (stepOf wires placed node).id ∈ ids := (stepOf_id wires placed node).symm ▸ hnode
    simp only [List.map_cons, stepsFrom, stepOf_renumber h hwires hplaced hnode]
    rw [ih (fun other hother => hnodes other (List.mem_cons_of_mem node hother)) (position + 1)
      (place_renumber h hplaced position hstep)]

/-- The steps of a graph are the same as before, or the same is in their way. -/
theorem steps?_renumber (h : Apart place ids) {graph : SignalGraph} (hwithin : graph.Within ids)
    (hids : (graph.nodes.map SignalNode.id).Nodup) :
    steps? (graph.renumber place) = match steps? graph with
      | .ok steps => .ok (steps.map (Step.renumber place))
      | .error error => .error (error.renumber place) := by
  have horder : graph.order ⊆ ids :=
    List.Subset.trans (SignalGraph.order_subset hids) hwithin.participants
  have hschedule : ∀ node ∈ graph.schedule, node.id ∈ ids := fun node hnode =>
    hwithin.participants (List.mem_map_of_mem (graph.schedule_subset hnode))
  simp only [steps?_eq, SignalGraph.order_renumber h hwithin, List.length_map,
    SignalGraph.participants_renumber]
  split
  · rw [SignalGraph.wires_renumber h hwithin, SignalGraph.schedule_renumber h hwithin hids,
      stepsFrom_renumber h hwithin.wires hschedule 0 fun _ _ => rfl]
  · -- The boxes that are missing from the order are missing from it under their other numbers.
    rw [← SignalGraph.participants_renumber, SignalGraph.ids_participants_renumber, List.filter_map]
    refine congrArg (fun boxes => Except.error (ChainError.cycle (List.map place boxes)))
      (List.filter_congr fun id hid => ?_)
    rw [Function.comp_apply, h.contains horder (hwithin.participants hid)]

/-- The chain of a graph is the same as before, or the same is in its way. -/
theorem build_renumber (h : Apart place ids) {graph : SignalGraph} (hwithin : graph.Within ids)
    (hids : (graph.nodes.map SignalNode.id).Nodup) (zero : σ) (sampleRate : Float32)
    (blockSize : Nat) :
    build zero (graph.renumber place) sampleRate blockSize =
      match build zero graph sampleRate blockSize with
      | .ok chain => .ok (chain.renumber place)
      | .error error => .error (error.renumber place) := by
  unfold build
  rw [steps?_renumber h hwithin hids]
  split
  · cases steps? graph with
    | error error => rfl
    | ok steps =>
      simp only [Except.map, renumber, List.map_map]
      rfl
  · rfl

/-- The steps of a chain stand for boxes of its graph. -/
theorem id_mem_of_build {graph : SignalGraph} (hwithin : graph.Within ids)
    (hids : (graph.nodes.map SignalNode.id).Nodup) {zero : σ} {sampleRate : Float32}
    {blockSize : Nat} {chain : Chain σ} (hbuild : build zero graph sampleRate blockSize = .ok chain) :
    ∀ step ∈ chain.steps, step.id ∈ ids := by
  intro step hstep
  have hmem : step.id ∈ chain.order := List.mem_map_of_mem hstep
  rw [order_of_build hids (validSettings_of_build hbuild) hbuild] at hmem
  exact hwithin.participants (SignalGraph.order_subset hids hmem)

end Chain

/-! ### Blocks -/

/-- A processor computes the same for the boxes under other numbers: from states that are alike come
states that are alike, and the same samples. -/
structure Processor.Renumbers {σ S : Type} (processor : Processor σ S) (place : Nat → Nat)
    (ids : List Nat) (Like : S → S → Prop) : Prop where
  perform : ∀ {copies boxes}, Like copies boxes → ∀ id ∈ ids, ∀ inputs buffers,
    Like (processor.perform copies (place id) inputs buffers).1
        (processor.perform boxes id inputs buffers).1 ∧
      (processor.perform copies (place id) inputs buffers).2 =
        (processor.perform boxes id inputs buffers).2
  performInPlace : ∀ {copies boxes}, Like copies boxes → ∀ id ∈ ids, ∀ buffer,
    Like (processor.performInPlace copies (place id) buffer).1
        (processor.performInPlace boxes id buffer).1 ∧
      (processor.performInPlace copies (place id) buffer).2 =
        (processor.performInPlace boxes id buffer).2

namespace Chain

variable {σ S : Type} {place : Nat → Nat} {ids : List Nat} {processor : Processor σ S}
  {Like : S → S → Prop}

/-- Two blocks under way are alike: the same samples are on the way, and the states are alike. -/
structure Flow.Matches (Like : S → S → Prop) (later flow : Flow σ S) : Prop where
  boxes : Like later.boxes flow.boxes
  buffers : later.buffers = flow.buffers
  bus : later.bus = flow.bus

/-- A step leaves them alike. -/
theorem Flow.Matches.performStep (h : processor.Renumbers place ids Like) {later flow : Flow σ S}
    (hflow : later.Matches Like flow) (blockSize position : Nat) {step : Step} (hstep : step.id ∈ ids) :
    (performStep processor blockSize later position (step.renumber place)).Matches Like
      (performStep processor blockSize flow position step) := by
  obtain ⟨copies, buffers, bus⟩ := later
  obtain ⟨hboxes, rfl, rfl⟩ := hflow
  unfold Chain.performStep
  dsimp only [Step.renumber]
  split
  · next location _ =>
    obtain ⟨hafter, hsame⟩ :=
      h.performInPlace hboxes step.id hstep (bufferAt flow.buffers location)
    exact ⟨hafter, by rw [hsame], rfl⟩
  · obtain ⟨hafter, hsame⟩ := h.perform hboxes step.id hstep
      ⟨step.feeds.map (read processor blockSize flow.buffers), flow.bus.inputs, blockSize⟩
      ((flow.buffers[position]?).getD [])
    exact ⟨hafter, by rw [hsame], by rw [hsame]⟩

/-- So do any number of steps. -/
theorem Flow.Matches.performFrom (h : processor.Renumbers place ids Like) (blockSize : Nat)
    {steps : List Step} (hsteps : ∀ step ∈ steps, step.id ∈ ids) (position : Nat)
    {later flow : Flow σ S} (hflow : later.Matches Like flow) :
    (performFrom processor blockSize position (steps.map (Step.renumber place)) later).Matches Like
      (performFrom processor blockSize position steps flow) := by
  induction steps generalizing position later flow with
  | nil => exact hflow
  | cons step rest ih =>
    exact ih (fun other hother => hsteps other (List.mem_cons_of_mem step hother)) (position + 1)
      (hflow.performStep h blockSize position (hsteps step List.mem_cons_self))

/-- A block computed by the chain of the boxes under other numbers gives the same samples. -/
theorem tick_renumber (h : processor.Renumbers place ids Like) {chain : Chain σ}
    (hsteps : ∀ step ∈ chain.steps, step.id ∈ ids) {copies boxes : S} (hboxes : Like copies boxes)
    (bus : Bus σ) :
    ((chain.renumber place).tick processor copies bus).1 =
        (chain.tick processor boxes bus).1.renumber place ∧
      Like ((chain.renumber place).tick processor copies bus).2.1
        (chain.tick processor boxes bus).2.1 ∧
      ((chain.renumber place).tick processor copies bus).2.2 =
        (chain.tick processor boxes bus).2.2 := by
  have hflow : Flow.Matches Like ⟨copies, chain.buffers, bus.clearOutputs processor.zero⟩
      ⟨boxes, chain.buffers, bus.clearOutputs processor.zero⟩ := ⟨hboxes, rfl, rfl⟩
  obtain ⟨hafter, hbuffers, hbus⟩ := hflow.performFrom h chain.blockSize hsteps 0
  refine ⟨?_, hafter, hbus⟩
  simp only [tick, renumber]
  rw [hbuffers]

end Chain

end Patchbay
