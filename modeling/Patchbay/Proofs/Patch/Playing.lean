import Patchbay.Proofs.Box.Splitting
import Patchbay.Proofs.Patch.Upkeep

/-!
# What a running patch plays

Every block that a running patch computes is one sweep over the boxes of its schedule, or over no boxes
at all while its signal wires form a cycle. Which boxes these are does not depend on the block size.

The patch has to be one of boxes that have been built. Whatever messages they have received since, and
whatever they have computed, their machines still write signals to their outlets for signals.
-/

namespace Patchbay

/-- A bus whose channels hold whole blocks has silent blocks on its outputs when these are silenced. -/
theorem Bus.Sized.clearOutputs_eq {σ : Type} {bus : Bus σ} {blockSize : Nat}
    (h : bus.Sized blockSize) (zero : σ) :
    bus.clearOutputs zero =
      ⟨bus.inputs, List.replicate bus.outputs.length (Buffer.constant blockSize zero)⟩ := by
  rw [Bus.clearOutputs, Bus.mk.injEq]
  refine ⟨rfl, List.eq_replicate_iff.mpr ⟨List.length_map _, fun channel hchannel => ?_⟩⟩
  obtain ⟨old, hold, rfl⟩ := List.mem_map.mp hchannel
  rw [h.outputs old hold]

/-- Buffers of one size are given out as they are to buffers of that size. -/
theorem Buffer.collect_eq {σ : Type} {buffers : List (Buffer σ)} {count size : Nat} {zero : σ}
    (h : Buffer.sizes buffers = List.replicate count size) {give : Nat × Nat → Buffer σ}
    (hgive : ∀ size channel,
      give (size, channel) = Buffer.fit size zero (buffers[channel]?.getD [])) :
    (List.replicate count size).zipIdx.map give = buffers := by
  apply List.ext_getElem?
  intro channel
  have hat := congrArg (fun sizes => sizes[channel]?) h
  simp only [Buffer.sizes, List.getElem?_map] at hat
  rw [List.getElem?_map, List.getElem?_zipIdx, ← hat]
  cases hbuffer : buffers[channel]? with
  | none => rfl
  | some buffer => simp [hgive, hbuffer, Buffer.fit]

/-! ### Boxes that have been built -/

/-- A box has been built: its inlets and outlets are those of a plan, and its machine has changed since
only as far as a machine of the plan can. -/
def Box.Built (box : Box) : Prop :=
  ∃ (model : Model) (site : Site) (plan : Plan Machine) (service : Nat),
    model.plan site = .ok plan ∧ box.inlets = plan.inlets ∧ box.outlets = plan.outlets ∧
      box.machine.profile = (plan.state service).profile

/-- A message leaves the profile as it is. -/
theorem Machine.profile_receive (here : Surroundings) (inlet : Nat) (atoms : List Atom)
    (machine : Machine) : (machine.receive here inlet atoms).state.profile = machine.profile := by
  cases machine with
  | control state | wireless state | timing state => rfl
  | audio state =>
    simp only [receive, Reaction.map, Audio.receive]
    split
    · cases state with
      | constant | input | output => rfl
      | oscillator frequency phase rate => dsimp only; split <;> rfl
      | combine operator scalar => cases operator <;> (dsimp only; split <;> rfl)
    · rfl
  | bench state =>
    cases state with
    | agent =>
      simp only [receive, Reaction.map, Bench.receive]
      split
      · rfl
      · split <;> rfl
    | idle | twin | late | panel => rfl

/-- A tick of the clock leaves the profile as it is. -/
theorem Machine.profile_tick (here : Surroundings) (machine : Machine) :
    (machine.tick here).state.profile = machine.profile := by
  cases machine <;> rfl

namespace Box

/-- A box is built when it is put together from a plan. -/
theorem built_assemble {model : Model} {site : Site} {plan : Plan Machine}
    (hplan : model.plan site = .ok plan) (detail : Dico) (service : Nat) :
    (Studio.assemble site plan detail service).Built :=
  ⟨model, site, plan, service, hplan, rfl, rfl, rfl⟩

/-- It stays so when its machine is exchanged for another of the same profile. -/
theorem Built.exchange {box : Box} (h : box.Built) {machine : Machine}
    (hprofile : machine.profile = box.machine.profile) : { box with machine }.Built := by
  obtain ⟨model, site, plan, service, hplan, hinlets, houtlets, hsame⟩ := h
  exact ⟨model, site, plan, service, hplan, hinlets, houtlets, hprofile.trans hsame⟩

/-- So it stays whatever message it receives, and when its clock ticks. -/
theorem Built.react {box : Box} (h : box.Built) (here : Surroundings) (inlet : Nat)
    (atoms : List Atom) :
    { box with machine := (box.machine.receive here inlet atoms).state }.Built ∧
      { box with machine := (box.machine.tick here).state }.Built :=
  ⟨h.exchange (Machine.profile_receive here inlet atoms box.machine),
    h.exchange (Machine.profile_tick here box.machine)⟩

/-- It stays so as long as its face does. -/
theorem Built.of_face {box later : Box} (h : box.Built) (hface : later.face = box.face) :
    later.Built := by
  obtain ⟨model, site, plan, service, hplan, hinlets, houtlets, hprofile⟩ := h
  simp only [face, Face.mk.injEq] at hface
  obtain ⟨-, -, -, hinletsSame, houtletsSame, hprofileSame⟩ := hface
  exact ⟨model, site, plan, service, hplan, hinletsSame.trans hinlets, houtletsSame.trans houtlets,
    hprofileSame.trans hprofile⟩

/-- A box that takes part in signal processing writes signals just to its outlets for signals. -/
theorem Built.profile {box : Box} (h : box.Built) (hready : box.machine.isReady = true) :
    box.machine.profile = (true, box.machine.worksInPlace, box.outlets.map Outlet.signal) := by
  obtain ⟨model, site, plan, service, hplan, -, houtlets, hprofile⟩ := h
  have hsame := hprofile
  simp only [Machine.profile, Prod.mk.injEq] at hsame
  obtain ⟨hreadySame, hworks, -⟩ := hsame
  rw [hprofile, Model.profile_of_plan hplan service (hreadySame.symm.trans hready), houtlets, hworks]

end Box

/-- The boxes of a patch, with other ways of adding samples that meet at an inlet and at an output channel. -/
def Machine.mixing (mix busMix : Sample → Sample → Sample) : Processor Sample (List Box) :=
  { Machine.processor with mix, busMix }

/-- They still leave their buffers at their sizes. -/
theorem Machine.mixing_keepsSizes (mix busMix : Sample → Sample → Sample) :
    (mixing mix busMix).KeepsSizes :=
  ⟨processor_keepsSizes.perform, processor_keepsSizes.performInPlace⟩

/-- They can share the same buffers. -/
theorem Machine.mixing_sharesBuffers (mix busMix : Sample → Sample → Sample) {blockSize : Nat}
    {good : List Box → Prop} {graph : SignalGraph} {inPlace : List Nat}
    (h : processor.SharesBuffers blockSize good graph inPlace) :
    (mixing mix busMix).SharesBuffers blockSize good graph inPlace :=
  ⟨h.perform_good, h.performInPlace_good, h.inPlace, h.overwrites⟩

/-- They do the same whatever they find at their outlets. -/
theorem Machine.mixing_oblivious (mix busMix : Sample → Sample → Sample) {graph : SignalGraph}
    (blockSize : Nat) {node : SignalNode} (hnode : node ∈ graph.participants) :
    (mixing mix busMix).Oblivious blockSize graph.Mirrors node :=
  ⟨(processor_oblivious blockSize hnode).perform_eq, (processor_oblivious blockSize hnode).perform_good⟩

/-- And each computes with its own machine. -/
theorem Machine.mixing_separate (mix busMix : Sample → Sample → Sample) :
    (mixing mix busMix).Separate find? act :=
  ⟨processor_separate.outputs, processor_separate.states⟩

namespace SignalGraph

/-- The boxes that are played: those of the schedule, or none if there is a cycle. -/
def played (graph : SignalGraph) : List SignalNode :=
  if graph.order.length = graph.participants.length then graph.schedule else []

variable {graph : SignalGraph}

/-- They take part. -/
theorem played_subset (graph : SignalGraph) : graph.played ⊆ graph.participants := by
  unfold played
  split
  · exact graph.schedule_subset
  · exact List.nil_subset _

/-- Each of them is played once. -/
theorem Sound.nodup_played (h : graph.Sound) : (graph.played.map SignalNode.id).Nodup := by
  unfold played
  split
  · exact nodup_schedule h.nodup
  · exact List.nodup_nil

/-- Boxes that mirror the graph compute blocks in two parts as they do at once. -/
theorem Mirrors.splits {boxes : List Box} (h : graph.Mirrors boxes) {node : SignalNode}
    (hnode : node ∈ graph.participants) :
    Splits Machine.act Machine.processor.zero node (Machine.find? boxes node.id) := by
  obtain ⟨box, hbox, hprofile⟩ := h node hnode
  obtain ⟨-, -, hsignals⟩ : _ ∧ _ ∧ box.machine.signals = node.outlets := by
    simpa [Machine.profile] using hprofile
  rw [Machine.find?, hbox, Option.map_some]
  exact Machine.splits hsignals

end SignalGraph

namespace Patch

variable {patch later : Patch}

/-- The boxes of a patch mirror its signal graph if all have been built. -/
theorem mirrors_of_built (hids : patch.ids.Nodup) (hbuilt : ∀ box ∈ patch.boxes, box.Built) :
    patch.signalGraph.Mirrors patch.boxes := by
  intro node hnode
  obtain ⟨hmem, hready⟩ := List.mem_filter.mp hnode
  obtain ⟨box, hbox, rfl⟩ := List.mem_map.mp hmem
  have hboxes := List.mem_of_mem_filter hbox
  obtain ⟨found, hfoundMem, hfound, hid⟩ :=
    exists_box?_of_mem_ids (List.mem_map_of_mem (f := Box.id) hboxes)
  obtain rfl := List.inj_on_of_nodup_map hids hfoundMem hboxes hid
  exact ⟨found, hfound, (hbuilt found hboxes).profile hready⟩

/-- A patch plays a graph block after block: it runs, its boxes mirror the graph, its chain has been made
of the graph, and it has none if the graph has a cycle. -/
structure Plays (graph : SignalGraph) (patch : Patch) : Prop where
  running : patch.engine.running = true
  sized : patch.engine.bus.Sized patch.engine.blockSize
  mirrors : graph.Mirrors patch.boxes
  chain : (∃ chain apart, patch.engine.chain? = some chain ∧ Chain.Beside graph chain apart ∧
      chain.blockSize = patch.engine.blockSize) ∨
    patch.engine.chain? = none ∧ graph.order.length ≠ graph.participants.length

namespace Plays

variable {graph : SignalGraph}

/-- A block that the patch computes is a block of the boxes that are played, and the patch goes on playing,
in whatever ways samples are added where they meet. -/
theorem runBlock_mixing (h : patch.Plays graph) (hsound : graph.Sound)
    (mix busMix : Sample → Sample → Sample) :
    (patch.runBlock (Machine.mixing mix busMix)).Plays graph ∧
      (patch.runBlock (Machine.mixing mix busMix)).engine.blockSize = patch.engine.blockSize ∧
      (patch.runBlock (Machine.mixing mix busMix)).engine.bus.inputs = patch.engine.bus.inputs ∧
      ((patch.runBlock (Machine.mixing mix busMix)).boxes,
          (patch.runBlock (Machine.mixing mix busMix)).engine.bus.outputs) =
        Dataflow.block (Machine.mixing mix busMix) graph.wires graph.played patch.engine.bus.outputs.length
          patch.engine.blockSize patch.boxes patch.engine.bus.inputs := by
  have hsilent := h.sized.clearOutputs_eq (Machine.mixing mix busMix).zero
  unfold Patch.runBlock
  obtain ⟨chain, apart, hchain, hbeside, hsize⟩ | ⟨hnone, hcycle⟩ := h.chain
  · have hplayed : graph.played = graph.schedule := if_pos hbeside.shared.complete
    have hshares := Machine.mixing_sharesBuffers mix busMix
      (hbeside.shared.sharesBuffers hsound chain.blockSize)
    have hsized := h.sized
    rw [← hsize] at hsized
    obtain ⟨-, hnext, hgood, -⟩ := hbeside.tick hsound (Machine.mixing_keepsSizes mix busMix) hshares h.mirrors
      hsized.inputs
    obtain ⟨produced, hsweep⟩ := hbeside.tick_eq_sweep hsound (Machine.mixing_keepsSizes mix busMix) hshares
      (fun node hnode => Machine.mixing_oblivious mix busMix chain.blockSize hnode) h.mirrors hsized.inputs
    simp only [hchain]
    refine ⟨⟨h.running, ?_, hgood, Or.inl ⟨_, _, rfl, hnext, hsize⟩⟩, trivial, ?_, ?_⟩
    · exact h.sized.tick chain patch.boxes
    · have hinputs : (Dataflow.sweep (Machine.mixing mix busMix) chain.blockSize graph.wires graph.schedule
          ⟨patch.boxes, fun _ _ => [], patch.engine.bus.clearOutputs (Machine.mixing mix busMix).zero⟩).bus.inputs =
          patch.engine.bus.inputs := Dataflow.inputs_sweep _ _
      rw [hsweep] at hinputs
      exact hinputs
    · rw [hplayed, Dataflow.block, ← hsilent, ← hsize, hsweep]
  · have hplayed : graph.played = [] := if_neg hcycle
    simp only [hnone]
    refine ⟨⟨h.running, h.sized.clearOutputs _, h.mirrors, Or.inr ⟨rfl, hcycle⟩⟩, trivial, rfl, ?_⟩
    rw [hplayed, Dataflow.block, hsilent]
    rfl

/-- So it is with sums of samples. -/
theorem runBlock (h : patch.Plays graph) (hsound : graph.Sound) :
    (patch.runBlock Machine.processor).Plays graph ∧
      (patch.runBlock Machine.processor).engine.blockSize = patch.engine.blockSize ∧
      (patch.runBlock Machine.processor).engine.bus.inputs = patch.engine.bus.inputs ∧
      ((patch.runBlock Machine.processor).boxes,
          (patch.runBlock Machine.processor).engine.bus.outputs) =
        Dataflow.block Machine.processor graph.wires graph.played patch.engine.bus.outputs.length
          patch.engine.blockSize patch.boxes patch.engine.bus.inputs :=
  h.runBlock_mixing hsound Sample.add Sample.add

/-- Processing a block gives out what the boxes that are played make of the samples on the input
channels. -/
theorem process (h : patch.Plays graph) (hsound : graph.Sound) (inputs : List (Buffer Sample)) :
    let played := patch.process Machine.processor inputs
      (List.replicate patch.channels.2 patch.engine.blockSize)
    played.1.Plays graph ∧ played.1.engine.blockSize = patch.engine.blockSize ∧
      played.1.channels = patch.channels ∧
      (played.1.boxes, played.2.2) =
        Dataflow.block Machine.processor graph.wires graph.played patch.channels.2
          patch.engine.blockSize patch.boxes
          (patch.engine.bus.setInputs Machine.processor.zero inputs).inputs := by
  let fed : Patch := { patch with
    engine := { patch.engine with bus := patch.engine.bus.setInputs Machine.processor.zero inputs } }
  have hfed : fed.Plays graph := ⟨h.running, h.sized.setInputs _ _, h.mirrors, h.chain⟩
  obtain ⟨hplays, hsize, hinputs, hblock⟩ := hfed.runBlock hsound
  have hsizes : Buffer.sizes (fed.runBlock Machine.processor).engine.bus.outputs =
      List.replicate patch.channels.2 patch.engine.blockSize :=
    (congrArg (fun after => Buffer.sizes after.2) hblock).trans (Dataflow.sizes_block _ _ _ _ _)
  have hcount : (fed.runBlock Machine.processor).engine.bus.outputs.length = patch.channels.2 := by
    simpa [Buffer.sizes] using congrArg List.length hsizes
  have hprocess : patch.process Machine.processor inputs
      (List.replicate patch.channels.2 patch.engine.blockSize) =
        (fed.runBlock Machine.processor, true,
          (fed.runBlock Machine.processor).engine.bus.outputs) := by
    rw [Patch.process, if_pos h.running]
    exact congrArg (fun given => (fed.runBlock Machine.processor, true, given))
      (Buffer.collect_eq hsizes fun _ _ => rfl)
  rw [hprocess]
  refine ⟨hplays, hsize, Prod.ext ?_ hcount, hblock⟩
  rw [channels, channels, hinputs]
  exact List.length_mapIdx

end Plays

/-- A running patch whose chain has just been made anew plays its signal graph. -/
theorem plays_rebuild (hrunning : patch.engine.running = true)
    (hvalid : Chain.validSettings patch.engine.sampleRate patch.engine.blockSize = true)
    (hsized : patch.engine.bus.Sized patch.engine.blockSize)
    (hmirrors : patch.signalGraph.Mirrors (patch.prepare patch.engine.sampleRate).boxes) :
    patch.rebuild.1.Plays patch.signalGraph ∧
      patch.rebuild.1.engine.blockSize = patch.engine.blockSize ∧
      patch.rebuild.1.channels = patch.channels ∧
      patch.rebuild.1.boxes = (patch.prepare patch.engine.sampleRate).boxes := by
  have hgraph := (patch.sameWiring_prepare patch.engine.sampleRate).signalGraph
  simp only [rebuild, hrunning, if_true, hgraph]
  split
  · next chain hbuild =>
    obtain ⟨-, hbuilt⟩ := (Chain.build_eq_ok_iff _ hvalid chain).mp hbuild
    obtain ⟨apart, -, hbeside⟩ := Chain.beside_of_build hvalid hbuild
    exact ⟨⟨hrunning, hsized, hmirrors, Or.inl ⟨chain, apart, rfl, hbeside, by rw [hbuilt]; rfl⟩⟩, rfl,
      rfl, rfl⟩
  · next error hbuild =>
    refine ⟨⟨hrunning, hsized, hmirrors, Or.inr ⟨rfl, fun hcomplete => ?_⟩⟩, rfl, rfl, rfl⟩
    rw [(Chain.build_eq_ok_iff _ hvalid _).mpr ⟨hcomplete, rfl⟩] at hbuild
    cases hbuild

/-- A patch whose boxes have been built plays its signal graph when signal processing is started. Its
boxes are the same for all block sizes. -/
theorem plays_start (hwired : patch.Wired) (hbuilt : ∀ box ∈ patch.boxes, box.Built)
    {sampleRate : Float32} {blockSize : Nat}
    (hvalid : Chain.validSettings sampleRate blockSize = true) :
    (patch.start sampleRate blockSize).1.Plays patch.signalGraph ∧
      (patch.start sampleRate blockSize).1.engine.blockSize = blockSize ∧
      (patch.start sampleRate blockSize).1.channels = patch.channels ∧
      (patch.start sampleRate blockSize).1.boxes = (patch.stop.prepare sampleRate).boxes := by
  have hprepare := patch.sameWiring_stop.trans (patch.stop.sameWiring_prepare sampleRate)
  have hmirrors : patch.signalGraph.Mirrors (patch.stop.prepare sampleRate).boxes := by
    rw [← hprepare.signalGraph]
    refine mirrors_of_built (hprepare.ids ▸ hwired.nodup) fun box hbox => ?_
    obtain ⟨old, hold, hface⟩ := exists_same_face hprepare.faces.symm hbox
    exact (hbuilt old hold).of_face hface.symm
  have hbus : patch.stop.engine.bus.resize Sample.zero blockSize =
      Bus.silent .zero patch.channels.1 patch.channels.2 blockSize := by
    unfold Patch.stop
    split
    · simp [Bus.resize, Bus.clearOutputs, channels]
    · rfl
  let started : Patch := { patch.stop with
    engine := { patch.stop.engine with
      running := true
      sampleRate
      blockSize
      bus := patch.stop.engine.bus.resize .zero blockSize
      chain? := none } }
  have hgraph : started.signalGraph = patch.signalGraph := patch.sameWiring_stop.signalGraph
  have hsized : started.engine.bus.Sized blockSize := .silent _ _ _ _
  obtain ⟨hplays, hsize, hchannels, hboxes⟩ :=
    plays_rebuild (rfl : started.engine.running = true) hvalid hsized (hgraph ▸ hmirrors)
  rw [start, if_pos hvalid]
  refine ⟨hgraph ▸ hplays, hsize, hchannels.trans ?_, hboxes⟩
  simp [channels, started, hbus, Bus.silent]

end Patch

end Patchbay
