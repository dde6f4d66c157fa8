import Patchbay.Proofs.Patch.Intact
import Patchbay.Proofs.Patch.Walks
import Patchbay.Proofs.Signal.Influence

/-!
# What can be heard of a patch

Signals reach the output channels through the boxes for output channels, and through signal wires that
lead to such a box over any number of others. All other boxes and signal wires may be changed, be it that
this changes the order of execution or which boxes work in place: the boxes at the ends of wires that can
be heard go on producing what they would have produced.
-/

namespace Patchbay

/-! ### Boxes for output channels -/

namespace Machine

/-- Decide whether a box puts signals on output channels. -/
def isOutput : Machine → Bool
  | audio (.output _) => true
  | _ => false

/-- A block makes no box one for output channels, and none that is one another. -/
theorem isOutput_perform (inputs : Inputs Sample) (buffers : List (Buffer Sample)) (machine : Machine) :
    (machine.perform inputs buffers).1.isOutput = machine.isOutput := by
  cases machine with
  | audio state => cases state <;> rfl
  | bench | control | wireless | timing => rfl

/-- Only a box for output channels puts something on them, and only if signal wires lead to it. -/
theorem channels_perform {inputs : Inputs Sample} {machine : Machine}
    (h : machine.isOutput = true → ∀ inlet, Audio.isConnected inputs inlet = false)
    (buffers : List (Buffer Sample)) : (machine.perform inputs buffers).2.channels = [] := by
  cases machine with
  | audio state =>
    cases state with
    | output channels =>
      simp only [perform, Audio.perform, h rfl]
      exact List.filterMap_eq_nil_iff.mpr fun _ _ => rfl
    | constant | oscillator | combine | input => rfl
  | bench state =>
    simp only [perform, Bench.perform]
    split <;> rfl
  | control | wireless | timing => rfl

end Machine

namespace Dataflow

/-- Every box that does not count and is one for output channels is without signal wires. -/
def Mute (counts : Nat → Prop) (wires : List Connection) (nodes : List SignalNode)
    (states : Nat → Option Machine) : Prop :=
  ∀ node ∈ nodes, ¬ counts node.id → (states node.id).any Machine.isOutput = true →
    ∀ edge ∈ wires, edge.target ≠ node.id

variable {counts : Nat → Prop} {wires : List Connection} {nodes : List SignalNode}
  {states later : Nat → Option Machine}

/-- Then the boxes that do not count put nothing on the bus. -/
theorem Mute.quiet (h : Mute counts wires nodes states) (mix busMix : Sample → Sample → Sample) :
    Quiet (Machine.mixing mix busMix) Machine.act counts wires nodes states := by
  intro node hnode hcounts size channels produced
  unfold outcome Machine.act
  cases hstate : states node.id with
  | none => rfl
  | some machine =>
    refine Machine.channels_perform (fun houtput inlet => ?_) _
    have hfar := h node hnode hcounts (by rw [hstate]; exact houtput)
    have hnone : ∀ inlet, seen (Machine.mixing mix busMix) size wires produced node.id inlet = none := by
      intro inlet
      have hempty : arriving wires node.id inlet = [] := by
        rw [arriving, List.filter_eq_nil_iff]
        intro edge hedge
        simp [hfar edge hedge]
      rw [seen, hempty]
      rfl
    simp only [Audio.isConnected, List.getElem?_map]
    cases (List.range node.inlets)[inlet]? with
    | none => rfl
    | some index => simp [hnone]

/-- Whether a box is one for output channels is not changed by a block. -/
theorem isOutput_sweep (mix busMix : Sample → Sample → Sample) (size : Nat) (wires : List Connection)
    (nodes : List SignalNode) (stage : Stage Sample (List Box)) (id : Nat) :
    (Machine.find? (sweep (Machine.mixing mix busMix) size wires nodes stage).boxes id).any
        Machine.isOutput = (Machine.find? stage.boxes id).any Machine.isOutput := by
  induction nodes generalizing stage with
  | nil => rfl
  | cons node nodes ih =>
    rw [sweep, List.foldl_cons, ← sweep, ih, look_visit (Machine.mixing_separate mix busMix)]
    by_cases heq : id = node.id
    · rw [heq, Function.update_self]
      cases Machine.find? stage.boxes node.id with
      | none => rfl
      | some machine => exact Machine.isOutput_perform _ _ machine
    · rw [Function.update_of_ne heq]

/-- So boxes without signal wires stay mute. -/
theorem Mute.block {boxes : List Box} (h : Mute counts wires nodes (Machine.find? boxes))
    (mix busMix : Sample → Sample → Sample) (visited : List SignalNode) (outputs size : Nat)
    (fed : List (Buffer Sample)) :
    Mute counts wires nodes (Machine.find?
      (block (Machine.mixing mix busMix) wires visited outputs size boxes fed).1) := by
  intro node hnode hcounts houtput
  rw [Dataflow.block, isOutput_sweep] at houtput
  exact h node hnode hcounts houtput

end Dataflow

/-- A box stands at each end of a wire. -/
theorem Connection.Sits.exists_end {wire : Connection} {boxes : List Box}
    (h : wire.Sits boxes) {id : Nat} (htouches : wire.touches id = true) :
    ∃ box ∈ boxes, box.id = id := by
  obtain ⟨source, hsource, target, htarget, -, -, hsourceId, htargetId, -⟩ := h
  rw [Connection.touches, Bool.or_eq_true, beq_iff_eq, beq_iff_eq] at htouches
  rcases htouches with rfl | rfl
  · exact ⟨source, hsource, hsourceId⟩
  · exact ⟨target, htarget, htargetId⟩

namespace Patch

/-! ### Wires that can be heard -/

variable {patch later : Patch}

/-- The box of a number leads out: it is one for output channels, or a signal wire leads from it to a box
that leads out. -/
inductive LeadsOut (patch : Patch) : Nat → Prop where
  | output {box : Box} (hbox : box ∈ patch.boxes) (houtput : box.machine.isOutput = true) :
    LeadsOut patch box.id
  | wire {wire : Connection} (hwire : wire ∈ patch.connections) (hsignal : wire.signal = true)
    (htarget : LeadsOut patch wire.target) : LeadsOut patch wire.source

/-- A wire can be heard: it lies on a path of signal wires to a box for output channels. -/
def Audible (patch : Patch) (wire : Connection) : Prop :=
  wire ∈ patch.connections ∧ wire.signal = true ∧ patch.LeadsOut wire.target

/-- A wire that can be heard ends at the box of a number. -/
def Counts (patch : Patch) (id : Nat) : Prop := ∃ wire, patch.Audible wire ∧ wire.touches id = true

/-- The ends of a wire that can be heard. -/
theorem Audible.counts {wire : Connection} (h : patch.Audible wire) :
    patch.Counts wire.source ∧ patch.Counts wire.target :=
  ⟨⟨wire, h, by simp [Connection.touches]⟩, ⟨wire, h, by simp [Connection.touches]⟩⟩

/-- They lead out. -/
theorem Counts.leadsOut {id : Nat} (h : patch.Counts id) : patch.LeadsOut id := by
  obtain ⟨wire, ⟨hwire, hsignal, htarget⟩, htouches⟩ := h
  rw [Connection.touches, Bool.or_eq_true, beq_iff_eq, beq_iff_eq] at htouches
  rcases htouches with rfl | rfl
  · exact .wire hwire hsignal htarget
  · exact htarget

/-- Signal wires to a box that counts can be heard. -/
theorem Counts.audible {wire : Connection} (h : patch.Counts wire.target)
    (hwire : wire ∈ patch.connections) (hsignal : wire.signal = true) : patch.Audible wire :=
  ⟨hwire, hsignal, h.leadsOut⟩

/-- The boxes at both ends of a wire take part. -/
def joinsParticipants (patch : Patch) (wire : Connection) : Bool :=
  let ids := patch.signalGraph.participants.map SignalNode.id
  ids.contains wire.source && ids.contains wire.target

/-- The wires at an inlet of a box that counts are picked from those that can be heard. -/
theorem arriving_eq_filter (patch : Patch) [DecidablePred patch.Audible] {id : Nat}
    (hcounts : patch.Counts id) (inlet : Nat) :
    Dataflow.arriving patch.signalGraph.wires id inlet =
      (patch.connections.filter fun wire => patch.Audible wire).filter fun wire =>
        patch.joinsParticipants wire && (wire.target == id && wire.inlet == inlet) := by
  have hwires : patch.signalGraph.wires =
      (patch.connections.filter Connection.signal).filter patch.joinsParticipants := rfl
  rw [Dataflow.arriving, hwires, List.filter_filter, List.filter_filter, List.filter_filter]
  refine List.filter_congr fun wire hwire => ?_
  by_cases htarget : wire.target = id
  · have haudible : patch.Audible wire ↔ wire.signal = true :=
      ⟨fun h => h.2.1, Counts.audible (htarget ▸ hcounts) hwire⟩
    have hdecide : decide (patch.Audible wire) = wire.signal :=
      Bool.eq_iff_iff.mpr (decide_eq_true_iff.trans haudible)
    rw [hdecide]
    ac_rfl
  · have hfar : (wire.target == id) = false := beq_eq_false_iff_ne.mpr htarget
    rw [hfar, Bool.false_and, Bool.false_and, Bool.false_and, Bool.and_false, Bool.false_and]

/-- What is picked from a part of a list and from the list is the same if it has the same members. -/
theorem filter_eq_of_sublist {A : Type} {part whole : List A} (hsub : part.Sublist whole)
    (hnodup : whole.Nodup) {p q : A → Bool}
    (hsame : ∀ a, a ∈ part ∧ p a = true ↔ a ∈ whole ∧ q a = true) :
    part.filter p = whole.filter q := by
  have hpicked : (part.filter p).Sublist (whole.filter q) := by
    have hall : (part.filter p).filter q = part.filter p :=
      List.filter_eq_self.mpr fun a ha => ((hsame a).mp (List.mem_filter.mp ha)).2
    rw [← hall]
    exact (List.filter_sublist.trans hsub).filter q
  refine hpicked.eq_of_length_le (List.Subperm.length_le ?_)
  refine (hnodup.filter q).subperm fun a ha => ?_
  exact List.mem_filter.mpr ((hsame a).mpr (List.mem_filter.mp ha))

/-- One patch comes of another by an edit of boxes and wires. Boxes may go, and come with new numbers, and
wires may either come or go; the engine gets another chain at most. -/
structure Retouched (patch later : Patch) : Prop where
  boxes : ∀ box ∈ later.boxes, box ∈ patch.boxes ∨ patch.nextId ≤ box.id
  connections : later.connections.Sublist patch.connections ∨
    patch.connections.Sublist later.connections
  engine : later.engine = { patch.engine with chain? := later.engine.chain? }

/-- When the chain is made anew, the boxes stay as they are or get ready. -/
theorem boxes_rebuildIf (patch : Patch) (signal : Bool) :
    (patch.rebuildIf signal).boxes = patch.boxes ∨ patch.engine.running = true ∧
      (patch.rebuildIf signal).boxes = (patch.prepare patch.engine.sampleRate).boxes := by
  unfold rebuildIf rebuild
  split
  · split
    · next hrunning =>
      dsimp only
      split <;> exact Or.inr ⟨hrunning, rfl⟩
    · exact Or.inl rfl
  · exact Or.inl rfl

/-- An edit of boxes and wires leaves boxes as they are, also if the chain is made anew. -/
theorem Intact.retouched (h : patch.Intact) {edited : Patch} (signal : Bool)
    (hengine : edited.engine = patch.engine)
    (hboxes : ∀ box ∈ edited.boxes, box ∈ patch.boxes ∨ patch.nextId ≤ box.id)
    (hconnections : edited.connections.Sublist patch.connections ∨
      patch.connections.Sublist edited.connections) : patch.Retouched (edited.rebuildIf signal) where
  boxes box hbox := by
    rcases boxes_rebuildIf edited signal with hsame | ⟨hrunning, hprepared⟩
    · exact hboxes box (hsame ▸ hbox)
    rw [hprepared] at hbox
    obtain ⟨before, hbefore, rfl⟩ := List.mem_map.mp hbox
    split
    · next hsignals =>
      rcases hboxes before hbefore with hold | hnew
      · -- A box that was there is ready for the sample rate already.
        rw [hengine] at hrunning ⊢
        rw [h.upkept.prepared hrunning before hold hsignals]
        exact Or.inl hold
      · exact Or.inr hnew
    · exact hboxes before hbefore
  connections := by
    rw [(sameWiring_rebuildIf edited signal).connections]
    exact hconnections
  engine := by
    rw [engine_rebuildIf, hengine]

/-- Two patches of which the same can be heard: one comes of the other by an edit elsewhere. -/
structure EditedElsewhere (patch later : Patch) : Prop extends Retouched patch later where
  audible : ∀ wire, patch.Audible wire ↔ later.Audible wire

namespace EditedElsewhere

/-- The same boxes count. -/
theorem counts (h : patch.EditedElsewhere later) (id : Nat) : patch.Counts id ↔ later.Counts id :=
  exists_congr fun wire => and_congr_left fun _ => h.audible wire

/-- A box that counts is in both patches. -/
theorem exists_box (h : patch.EditedElsewhere later) (hwired : patch.Wired) (hlater : later.Wired)
    {id : Nat} (hcounts : patch.Counts id) :
    ∃ box ∈ patch.boxes, box ∈ later.boxes ∧ box.id = id := by
  obtain ⟨wire, hwire, htouches⟩ := hcounts
  obtain ⟨old, hold, hid⟩ := (hwired.sits wire hwire.1).exists_end htouches
  obtain ⟨new, hnew, hnewId⟩ := (hlater.sits wire ((h.audible wire).mp hwire).1).exists_end htouches
  rcases h.boxes new hnew with hsame | hfresh
  · obtain rfl := List.inj_on_of_nodup_map hwired.nodup hsame hold (hnewId.trans hid.symm)
    exact ⟨new, hold, hnew, hid⟩
  · have hgiven := hwired.given old.id (List.mem_map_of_mem hold)
    omega

/-- Boxes that count are the same. -/
theorem mem_boxes_iff (h : patch.EditedElsewhere later) (hwired : patch.Wired) (hlater : later.Wired)
    {box : Box} (hcounts : patch.Counts box.id) : box ∈ patch.boxes ↔ box ∈ later.boxes := by
  obtain ⟨found, hfound, hfoundLater, hid⟩ := h.exists_box hwired hlater hcounts
  constructor
  · intro hbox
    exact List.inj_on_of_nodup_map hwired.nodup hfound hbox hid ▸ hfoundLater
  · intro hbox
    exact List.inj_on_of_nodup_map hlater.nodup hfoundLater hbox hid ▸ hfound

/-- They are found in the same state. -/
theorem find?_eq (h : patch.EditedElsewhere later) (hwired : patch.Wired) (hlater : later.Wired)
    {id : Nat} (hcounts : patch.Counts id) :
    Machine.find? patch.boxes id = Machine.find? later.boxes id := by
  obtain ⟨box, hbox, hboxLater, rfl⟩ := h.exists_box hwired hlater hcounts
  exact congrArg (Option.map Box.machine)
    ((box?_of_mem hwired.nodup hbox).trans (box?_of_mem hlater.nodup hboxLater).symm)

/-- Boxes that count and take part are the same. -/
theorem mem_participants_iff (h : patch.EditedElsewhere later) (hwired : patch.Wired)
    (hlater : later.Wired) {node : SignalNode} (hcounts : patch.Counts node.id) :
    node ∈ patch.signalGraph.participants ↔ node ∈ later.signalGraph.participants := by
  simp only [SignalGraph.participants, signalGraph, List.mem_filter, List.mem_map]
  refine and_congr_left fun _ => exists_congr fun box => and_congr_left fun hnode => ?_
  exact and_congr_left fun _ => h.mem_boxes_iff hwired hlater (hnode ▸ hcounts : patch.Counts box.node.id)

/-- So the same numbers of boxes that count take part. -/
theorem mem_ids_iff (h : patch.EditedElsewhere later) (hwired : patch.Wired) (hlater : later.Wired)
    {id : Nat} (hcounts : patch.Counts id) :
    id ∈ patch.signalGraph.participants.map SignalNode.id ↔
      id ∈ later.signalGraph.participants.map SignalNode.id := by
  simp only [List.mem_map]
  refine exists_congr fun node => and_congr_left fun hid => ?_
  exact h.mem_participants_iff hwired hlater (hid ▸ hcounts)

/-- Wires that can be heard are the same, in the same order. -/
theorem filter_audible (h : patch.EditedElsewhere later) (hwired : patch.Wired)
    (hlater : later.Wired) [DecidablePred patch.Audible] [DecidablePred later.Audible] :
    patch.connections.filter (fun wire => patch.Audible wire) =
      later.connections.filter fun wire => later.Audible wire := by
  have hsame : ∀ wire, wire ∈ patch.connections ∧ decide (patch.Audible wire) = true ↔
      wire ∈ later.connections ∧ decide (later.Audible wire) = true := by
    intro wire
    rw [decide_eq_true_eq, decide_eq_true_eq, and_iff_right_of_imp fun h : patch.Audible wire => h.1,
      and_iff_right_of_imp fun h : later.Audible wire => h.1]
    exact h.audible wire
  rcases h.connections with hsub | hsub
  · exact (filter_eq_of_sublist hsub hwired.nodup_connections fun wire => (hsame wire).symm).symm
  · exact filter_eq_of_sublist hsub hlater.nodup_connections hsame

/-- The wires at an inlet of a box that counts are the same. -/
theorem arriving_eq (h : patch.EditedElsewhere later) (hwired : patch.Wired)
    (hlater : later.Wired) {id : Nat} (hcounts : patch.Counts id) (inlet : Nat) :
    Dataflow.arriving patch.signalGraph.wires id inlet =
      Dataflow.arriving later.signalGraph.wires id inlet := by
  classical
  rw [patch.arriving_eq_filter hcounts, later.arriving_eq_filter ((h.counts id).mp hcounts),
    h.filter_audible hwired hlater]
  refine List.filter_congr fun wire hwire => ?_
  have hends := (of_decide_eq_true (List.mem_filter.mp hwire).2).counts
  have hsame : ∀ end', later.Counts end' →
      (patch.signalGraph.participants.map SignalNode.id).contains end' =
        (later.signalGraph.participants.map SignalNode.id).contains end' := by
    intro end' hend
    have hmem := h.mem_ids_iff hwired hlater ((h.counts end').mpr hend)
    simpa only [List.contains_eq_mem, decide_eq_decide] using hmem
  rw [joinsParticipants, joinsParticipants, hsame _ hends.1, hsame _ hends.2]

/-- The patches agree in what counts. -/
theorem agree (h : patch.EditedElsewhere later) (hwired : patch.Wired) (hlater : later.Wired)
    (hcomplete : patch.signalGraph.Acyclic) (hcompleteLater : later.signalGraph.Acyclic) :
    Dataflow.Agree patch.Counts patch.signalGraph.wires later.signalGraph.wires
      patch.signalGraph.schedule later.signalGraph.schedule where
  boxes node hcounts := by
    rw [(SignalGraph.schedule_perm hwired.sound.nodup
        ((SignalGraph.length_order_iff_acyclic hwired.sound.nodup).mpr hcomplete)).mem_iff,
      (SignalGraph.schedule_perm hlater.sound.nodup
        ((SignalGraph.length_order_iff_acyclic hlater.sound.nodup).mpr hcompleteLater)).mem_iff]
    exact h.mem_participants_iff hwired hlater hcounts
  arriving _ hcounts inlet := h.arriving_eq hwired hlater hcounts inlet
  inside wire hwire hcounts := by
    obtain ⟨hmem, hsignal⟩ := List.mem_filter.mp (List.mem_filter.mp hwire).1
    exact (hcounts.audible hmem hsignal).counts.1

end EditedElsewhere

/-- A box for output channels that does not count is without signal wires. -/
theorem mute (patch : Patch) :
    Dataflow.Mute patch.Counts patch.signalGraph.wires patch.signalGraph.schedule
      (Machine.find? patch.boxes) := by
  intro node _ hcounts houtput wire hwire htarget
  obtain ⟨machine, hmachine, hisOutput⟩ := (Option.any_eq_true _ _).mp houtput
  obtain ⟨box, hbox, rfl⟩ := Option.map_eq_some_iff.mp hmachine
  have hid : box.id = wire.target := by simpa [htarget] using List.find?_some hbox
  obtain ⟨hmem, hsignal⟩ := List.mem_filter.mp (List.mem_filter.mp hwire).1
  have haudible : patch.Audible wire :=
    ⟨hmem, hsignal, hid ▸ .output (List.mem_of_find?_eq_some hbox) hisOutput⟩
  exact hcounts (htarget ▸ haudible.counts.2)

/-! ### Blocks to come -/

/-- What is asked for in one block: samples for the input channels, and samples for buffers of some sizes,
one for each output channel. -/
abbrev Feed := List (Buffer Sample) × List Nat

/-- Process blocks one after the other. Of each block this is what is on the output channels, and what is
given out. -/
def processAll (processor : Processor Sample (List Box)) :
    List Feed → Patch → List (List (Buffer Sample) × List (Buffer Sample))
  | [], _ => []
  | feed :: rest, patch =>
    let processed := patch.process processor feed.1 feed.2
    (processed.1.engine.bus.outputs, processed.2.2) :: processAll processor rest processed.1

/-- Processing a block leaves on the output channels what the boxes that are played make of the samples
on the input channels, and gives out as much of it as is asked for. -/
theorem Plays.process_mixing {graph : SignalGraph} (h : patch.Plays graph) (hsound : graph.Sound)
    (mix busMix : Sample → Sample → Sample) (feed : Feed) :
    let processed := patch.process (Machine.mixing mix busMix) feed.1 feed.2
    let fed := (patch.engine.bus.setInputs Sample.zero feed.1).inputs
    processed.1.Plays graph ∧ processed.1.engine.blockSize = patch.engine.blockSize ∧
      processed.1.engine.bus.inputs = fed ∧
      (processed.1.boxes, processed.1.engine.bus.outputs) =
        Dataflow.block (Machine.mixing mix busMix) graph.wires graph.played
          patch.engine.bus.outputs.length patch.engine.blockSize patch.boxes fed ∧
      processed.2.2 = feed.2.zipIdx.map fun (size, channel) =>
        Buffer.fit size Sample.zero (processed.1.engine.bus.outputs[channel]?.getD []) := by
  obtain ⟨hplays, hsize, hinputs, hblock⟩ := (h.setInputs Sample.zero feed.1).runBlock_mixing hsound
    mix busMix
  rw [Patch.process, if_pos h.running]
  exact ⟨hplays, hsize, hinputs, hblock, rfl⟩

/-- Two patches play two graphs that agree in what counts, with the same samples on the input channels,
and the boxes that count are in the same states. -/
structure Echo (counts : Nat → Prop) (graph other : SignalGraph) (patch later : Patch) : Prop where
  plays : patch.Plays graph
  playsLater : later.Plays other
  blockSize : later.engine.blockSize = patch.engine.blockSize
  inputs : later.engine.bus.inputs = patch.engine.bus.inputs
  outputs : later.engine.bus.outputs.length = patch.engine.bus.outputs.length
  states : ∀ id, counts id → Machine.find? patch.boxes id = Machine.find? later.boxes id
  mute : Dataflow.Mute counts graph.wires graph.schedule (Machine.find? patch.boxes)
  muteLater : Dataflow.Mute counts other.wires other.schedule (Machine.find? later.boxes)

namespace Echo

variable {counts : Nat → Prop} {graph other : SignalGraph} (mix : Sample → Sample → Sample)
  {busMix : Sample → Sample → Sample}

/-- A block leaves the same on the output channels of both, gives out the same, and they go on as
before. -/
theorem process (h : Echo counts graph other patch later) (hsound : graph.Sound)
    (hother : other.Sound) (hacyclic : graph.Acyclic) (hacyclicOther : other.Acyclic)
    (hagree : Dataflow.Agree counts graph.wires other.wires graph.schedule other.schedule)
    (hcomm : ∀ x y, busMix x y = busMix y x)
    (hassoc : ∀ x y z, busMix (busMix x y) z = busMix x (busMix y z)) (feed : Feed) :
    let processed := patch.process (Machine.mixing mix busMix) feed.1 feed.2
    let processedLater := later.process (Machine.mixing mix busMix) feed.1 feed.2
    Echo counts graph other processed.1 processedLater.1 ∧
      processed.1.engine.bus.outputs = processedLater.1.engine.bus.outputs ∧
      processed.2.2 = processedLater.2.2 := by
  obtain ⟨hplays, hsize, hinputs, hblock, hgiven⟩ := h.plays.process_mixing hsound mix busMix feed
  obtain ⟨hplaysLater, hsizeLater, hinputsLater, hblockLater, hgivenLater⟩ :=
    h.playsLater.process_mixing hother mix busMix feed
  have hcomplete := (SignalGraph.length_order_iff_acyclic hsound.nodup).mpr hacyclic
  have hcompleteOther := (SignalGraph.length_order_iff_acyclic hother.nodup).mpr hacyclicOther
  have hfed : (later.engine.bus.setInputs Sample.zero feed.1).inputs =
      (patch.engine.bus.setInputs Sample.zero feed.1).inputs := by
    simp only [Bus.setInputs, h.inputs]
  rw [show graph.played = graph.schedule from if_pos hcomplete] at hblock
  rw [show other.played = other.schedule from if_pos hcompleteOther, hfed, h.blockSize,
    h.outputs] at hblockLater
  obtain ⟨houtputs, hstates⟩ := hagree.block_eq patch.engine.blockSize
    (Machine.mixing_separate mix busMix) hcomm hassoc (SignalGraph.nodup_schedule hsound.nodup)
    (SignalGraph.nodup_schedule hother.nodup) (fun _ _ _ heq => (hsound.next heq).fed)
    (fun _ _ _ heq => (hother.next heq).fed) h.states (h.mute.quiet mix busMix)
    (h.muteLater.quiet mix busMix) patch.engine.bus.outputs.length
    (patch.engine.bus.setInputs Sample.zero feed.1).inputs
  have hmute := h.mute.block mix busMix graph.schedule patch.engine.bus.outputs.length
    patch.engine.blockSize (patch.engine.bus.setInputs Sample.zero feed.1).inputs
  have hmuteLater := h.muteLater.block mix busMix other.schedule patch.engine.bus.outputs.length
    patch.engine.blockSize (patch.engine.bus.setInputs Sample.zero feed.1).inputs
  rw [← hblock] at houtputs hstates hmute
  rw [← hblockLater] at houtputs hstates hmuteLater
  dsimp only at houtputs
  refine ⟨⟨hplays, hplaysLater, ?_, ?_, ?_, hstates, hmute, hmuteLater⟩, houtputs, ?_⟩
  · rw [hsizeLater, hsize, h.blockSize]
  · rw [hinputsLater, hinputs, hfed]
  · exact congrArg List.length houtputs.symm
  · rw [hgiven, hgivenLater, houtputs]

/-- So it is block after block. -/
theorem processAll (h : Echo counts graph other patch later) (hsound : graph.Sound)
    (hother : other.Sound) (hacyclic : graph.Acyclic) (hacyclicOther : other.Acyclic)
    (hagree : Dataflow.Agree counts graph.wires other.wires graph.schedule other.schedule)
    (hcomm : ∀ x y, busMix x y = busMix y x)
    (hassoc : ∀ x y z, busMix (busMix x y) z = busMix x (busMix y z)) (feeds : List Feed) :
    patch.processAll (Machine.mixing mix busMix) feeds =
      later.processAll (Machine.mixing mix busMix) feeds := by
  induction feeds generalizing patch later with
  | nil => rfl
  | cons feed rest ih =>
    obtain ⟨hnext, houtputs, hgiven⟩ :=
      h.process mix hsound hother hacyclic hacyclicOther hagree hcomm hassoc feed
    rw [Patch.processAll, Patch.processAll, houtputs, hgiven, ih hnext]

end Echo

/-- Two running patches of which the same can be heard give the same samples, block after block. -/
theorem EditedElsewhere.processAll_eq (h : patch.EditedElsewhere later) (hintact : patch.Intact)
    (hintactLater : later.Intact) (hrunning : patch.engine.running = true)
    (hacyclic : patch.signalGraph.Acyclic) (hacyclicLater : later.signalGraph.Acyclic)
    (mix : Sample → Sample → Sample) {busMix : Sample → Sample → Sample}
    (hcomm : ∀ x y, busMix x y = busMix y x)
    (hassoc : ∀ x y z, busMix (busMix x y) z = busMix x (busMix y z)) (feeds : List Feed) :
    patch.processAll (Machine.mixing mix busMix) feeds =
      later.processAll (Machine.mixing mix busMix) feeds := by
  have hcounts : patch.Counts = later.Counts := funext fun id => propext (h.counts id)
  have hrunningLater : later.engine.running = true := by rw [h.engine]; exact hrunning
  have hecho : Echo patch.Counts patch.signalGraph later.signalGraph patch later :=
    { plays := hintact.plays hrunning
      playsLater := hintactLater.plays hrunningLater
      blockSize := by rw [h.engine]
      inputs := by rw [h.engine]
      outputs := by rw [h.engine]
      states := fun id hid => h.find?_eq hintact.wired hintactLater.wired hid
      mute := patch.mute
      muteLater := hcounts ▸ later.mute }
  exact hecho.processAll mix hintact.wired.sound hintactLater.wired.sound hacyclic hacyclicLater
    (h.agree hintact.wired hintactLater.wired hacyclic hacyclicLater) hcomm hassoc feeds

end Patch

end Patchbay
