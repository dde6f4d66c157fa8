import Patchbay.Proofs.Signal.Renumbering
import Patchbay.Sound.Rendering

/-!
# Patches that sound the same

Two patches whose boxes can be paired off, in their order, so that those of a pair compute the same
signals from the same inputs, and whose wires run between the same pairs. They are rendered with the same
samples, whatever numbers their boxes have, and their boxes are executed in the same order.
-/

namespace Patchbay

/-! ### Machines -/

namespace Machine

/-- Decide whether a machine computes no signals. -/
def isSilent : Machine → Bool
  | control _ | wireless _ | timing _ => true
  | audio _ | bench _ => false

/-- Two machines compute the same signals: they are the same, or they compute none. -/
def Agrees (machine other : Machine) : Prop :=
  machine = other ∨ machine.isSilent = true ∧ other.isSilent = true

variable {machine other : Machine}

/-- A machine that computes no signals leaves all buffers as they are. -/
theorem perform_of_isSilent (h : machine.isSilent = true) (inputs : Inputs Sample)
    (buffers : List (Buffer Sample)) : machine.perform inputs buffers = (machine, ⟨buffers, []⟩) := by
  cases machine with
  | control | wireless | timing => rfl
  | audio | bench => cases h

/-- It leaves the buffer as it is that it is to change. -/
theorem performInPlace_of_isSilent (h : machine.isSilent = true) (buffer : Buffer Sample) :
    machine.performInPlace buffer = (machine, buffer) := by
  cases machine with
  | control | wireless | timing => rfl
  | audio | bench => cases h

/-- It needs not get ready, and takes no part in signal processing. -/
theorem profile_of_isSilent (h : machine.isSilent = true) :
    (∀ sampleRate, machine.prepare sampleRate = machine) ∧ machine.isReady = false ∧
      machine.worksInPlace = false := by
  cases machine with
  | control | wireless | timing => exact ⟨fun _ => rfl, rfl, rfl⟩
  | audio | bench => cases h

namespace Agrees

/-- Agreement goes both ways. -/
theorem symm (h : machine.Agrees other) : other.Agrees machine := h.imp Eq.symm And.symm

/-- What agrees with the same agrees. -/
theorem trans {last : Machine} (h : machine.Agrees other) (hlast : other.Agrees last) :
    machine.Agrees last := by
  rcases h with rfl | ⟨hmachine, hother⟩
  · exact hlast
  · rcases hlast with rfl | ⟨-, hsilent⟩
    · exact Or.inr ⟨hmachine, hother⟩
    · exact Or.inr ⟨hmachine, hsilent⟩

/-- They take part in signal processing in the same way. -/
theorem profile (h : machine.Agrees other) :
    machine.isReady = other.isReady ∧ machine.worksInPlace = other.worksInPlace := by
  rcases h with rfl | ⟨hmachine, hother⟩
  · exact ⟨rfl, rfl⟩
  · obtain ⟨-, hready, hinPlace⟩ := profile_of_isSilent hmachine
    obtain ⟨-, hotherReady, hotherInPlace⟩ := profile_of_isSilent hother
    exact ⟨hready.trans hotherReady.symm, hinPlace.trans hotherInPlace.symm⟩

/-- They still do so when they have got ready for a sample rate. -/
theorem prepare (h : machine.Agrees other) (sampleRate : Float32) :
    (machine.prepare sampleRate).Agrees (other.prepare sampleRate) := by
  rcases h with rfl | ⟨hmachine, hother⟩
  · exact Or.inl rfl
  · rw [(profile_of_isSilent hmachine).1, (profile_of_isSilent hother).1]
    exact Or.inr ⟨hmachine, hother⟩

/-- They compute the same block. -/
theorem perform (h : machine.Agrees other) (inputs : Inputs Sample)
    (buffers : List (Buffer Sample)) :
    (machine.perform inputs buffers).1.Agrees (other.perform inputs buffers).1 ∧
      (machine.perform inputs buffers).2 = (other.perform inputs buffers).2 := by
  rcases h with rfl | ⟨hmachine, hother⟩
  · exact ⟨Or.inl rfl, rfl⟩
  · rw [perform_of_isSilent hmachine, perform_of_isSilent hother]
    exact ⟨Or.inr ⟨hmachine, hother⟩, rfl⟩

/-- They make the same of a buffer in place. -/
theorem performInPlace (h : machine.Agrees other) (buffer : Buffer Sample) :
    (machine.performInPlace buffer).1.Agrees (other.performInPlace buffer).1 ∧
      (machine.performInPlace buffer).2 = (other.performInPlace buffer).2 := by
  rcases h with rfl | ⟨hmachine, hother⟩
  · exact ⟨Or.inl rfl, rfl⟩
  · rw [performInPlace_of_isSilent hmachine, performInPlace_of_isSilent hother]
    exact ⟨Or.inr ⟨hmachine, hother⟩, rfl⟩

end Agrees

end Machine

/-! ### Boxes -/

namespace Box

/-- A box under the number that is the place of another, with the same inlets and outlets, that computes
the same signals. -/
structure Counterpart (place : Nat → Nat) (copy box : Box) : Prop where
  id : copy.id = place box.id
  inlets : copy.inlets = box.inlets
  outlets : copy.outlets = box.outlets
  machine : copy.machine.Agrees box.machine

variable {place : Nat → Nat} {copy box : Box} {copies boxes : List Box} {ids : List Nat}

/-- Both have to do with signals, or none. -/
theorem Counterpart.hasSignals (h : copy.Counterpart place box) :
    copy.hasSignals = box.hasSignals := by
  rw [Box.hasSignals, Box.hasSignals, h.inlets, h.outlets]

/-- The signal graph shows the same of both. -/
theorem Counterpart.node (h : copy.Counterpart place box) : copy.node = box.node.renumber place := by
  obtain ⟨hready, hinPlace⟩ := h.machine.profile
  rw [Box.node, hready, hinPlace, h.id, h.inlets, h.outlets]
  rfl

/-- They are found under their numbers. -/
theorem find?_counterpart (h : List.Forall₂ (Counterpart place) copies boxes) {id : Nat}
    (hsame : ∀ box ∈ boxes, (place box.id == place id) = (box.id == id)) :
    Option.Rel (Counterpart place) (copies.find? fun copy => copy.id == place id)
      (boxes.find? fun box => box.id == id) := by
  induction h with
  | nil => exact .none
  | @cons copy box copies boxes hpair _ ih =>
    obtain ⟨hbox, hboxes⟩ := List.forall_mem_cons.mp hsame
    rw [List.find?_cons, List.find?_cons, hpair.id, hbox]
    cases box.id == id with
    | true => exact .some hpair
    | false => exact ih hboxes

/-- The machines of one pair may be exchanged for others that compute the same. -/
theorem exchange_counterpart (h : List.Forall₂ (Counterpart place) copies boxes) {id : Nat}
    (hsame : ∀ box ∈ boxes, (place box.id == place id) = (box.id == id)) {machine other : Machine}
    (hagrees : machine.Agrees other) :
    List.Forall₂ (Counterpart place)
      (copies.map fun copy => if copy.id = place id then { copy with machine } else copy)
      (boxes.map fun box => if box.id = id then { box with machine := other } else box) := by
  induction h with
  | nil => exact .nil
  | @cons copy box copies boxes hpair _ ih =>
    obtain ⟨hbox, hboxes⟩ := List.forall_mem_cons.mp hsame
    have hiff : place box.id = place id ↔ box.id = id := by
      rw [← beq_iff_eq, hbox, beq_iff_eq]
    refine .cons ?_ (ih hboxes)
    dsimp only
    by_cases hid : box.id = id
    · rw [if_pos (hpair.id.trans (hiff.mpr hid)), if_pos hid]
      exact ⟨hpair.id, hpair.inlets, hpair.outlets, hagrees⟩
    · rw [if_neg fun heq => hid (hiff.mp (hpair.id.symm.trans heq)), if_neg hid]
      exact hpair

/-- The machine of a box does not tell its number. -/
theorem map_id_exchange (boxes : List Box) (id : Nat) (machine : Machine) :
    (boxes.map fun box => if box.id = id then { box with machine } else box).map Box.id =
      boxes.map Box.id := by
  rw [List.map_map]
  refine List.map_congr_left fun box _ => ?_
  rw [Function.comp_apply]
  split <;> rfl

/-- Boxes in pairs compute the same. -/
theorem renumbers_processor (hapart : Apart place ids) :
    Machine.processor.Renumbers place ids fun copies boxes =>
      List.Forall₂ (Counterpart place) copies boxes ∧ boxes.map Box.id = ids where
  perform := by
    rintro copies boxes ⟨hboxes, rfl⟩ id hid inputs buffers
    have hsame : ∀ box ∈ boxes, (place box.id == place id) = (box.id == id) := fun box hbox =>
      hapart.beq (List.mem_map_of_mem hbox) hid
    have hfound := find?_counterpart hboxes hsame
    simp only [Machine.processor]
    generalize copies.find? (fun copy => copy.id == place id) = copy? at hfound
    generalize boxes.find? (fun box => box.id == id) = box? at hfound
    cases hfound with
    | none => exact ⟨⟨hboxes, rfl⟩, rfl⟩
    | some hpair =>
      obtain ⟨hagrees, houtputs⟩ := hpair.machine.perform inputs buffers
      exact ⟨⟨exchange_counterpart hboxes hsame hagrees, map_id_exchange boxes id _⟩, houtputs⟩
  performInPlace := by
    rintro copies boxes ⟨hboxes, rfl⟩ id hid buffer
    have hsame : ∀ box ∈ boxes, (place box.id == place id) = (box.id == id) := fun box hbox =>
      hapart.beq (List.mem_map_of_mem hbox) hid
    have hfound := find?_counterpart hboxes hsame
    simp only [Machine.processor]
    generalize copies.find? (fun copy => copy.id == place id) = copy? at hfound
    generalize boxes.find? (fun box => box.id == id) = box? at hfound
    cases hfound with
    | none => exact ⟨⟨hboxes, rfl⟩, rfl⟩
    | some hpair =>
      obtain ⟨hagrees, hbuffer⟩ := hpair.machine.performInPlace buffer
      exact ⟨⟨exchange_counterpart hboxes hsame hagrees, map_id_exchange boxes id _⟩, hbuffer⟩

end Box

/-! ### Patches -/

/-- Signal processing with other numbers for the boxes. -/
def Engine.renumber (place : Nat → Nat) (engine : Engine) : Engine :=
  { engine with chain? := engine.chain?.map (Chain.renumber place) }

namespace Patch

/-- The boxes of a patch are told apart by their numbers, also by the places of these, and its wires and
the steps of its chain are about them. -/
structure Placed (place : Nat → Nat) (patch : Patch) : Prop where
  apart : Apart place patch.ids
  nodup : patch.ids.Nodup
  wires : ∀ wire ∈ patch.connections, wire.source ∈ patch.ids ∧ wire.target ∈ patch.ids
  steps : ∀ chain ∈ patch.engine.chain?, ∀ step ∈ chain.steps, step.id ∈ patch.ids

/-- A patch with counterparts of the boxes of another, the wires between them, and signal processing in
the same state. -/
structure Counterpart (place : Nat → Nat) (copy patch : Patch) : Prop where
  boxes : List.Forall₂ (Box.Counterpart place) copy.boxes patch.boxes
  connections : copy.connections = patch.connections.map (Connection.renumber place)
  engine : copy.engine = patch.engine.renumber place

variable {place : Nat → Nat} {copy patch : Patch}

/-- The signal graph is about the boxes. -/
theorem Placed.within (h : patch.Placed place) : patch.signalGraph.Within patch.ids where
  nodes := by
    intro node hnode
    obtain ⟨box, hbox, rfl⟩ := List.mem_map.mp hnode
    exact List.mem_map_of_mem (List.mem_filter.mp hbox).1
  edges wire hwire := h.wires wire (List.mem_filter.mp hwire).1

/-- No two boxes of the signal graph have the same number. -/
theorem Placed.nodup_nodes (h : patch.Placed place) :
    (patch.signalGraph.nodes.map SignalNode.id).Nodup := by
  rw [signalGraph, List.map_map]
  exact (List.filter_sublist.map Box.id).nodup h.nodup

/-- Boxes in pairs show the same in the signal graph. -/
theorem nodes_counterpart {copies boxes : List Box}
    (h : List.Forall₂ (Box.Counterpart place) copies boxes) :
    (copies.filter Box.hasSignals).map Box.node =
      ((boxes.filter Box.hasSignals).map Box.node).map (SignalNode.renumber place) := by
  induction h with
  | nil => rfl
  | @cons copy box copies boxes hpair _ ih =>
    rw [List.filter_cons, List.filter_cons, hpair.hasSignals]
    split
    · rw [List.map_cons, List.map_cons, List.map_cons, ih, hpair.node]
    · exact ih

namespace Counterpart

/-- The signal graph is the same but for the numbers. -/
theorem signalGraph (h : copy.Counterpart place patch) :
    copy.signalGraph = patch.signalGraph.renumber place := by
  rw [Patch.signalGraph, Patch.signalGraph, SignalGraph.renumber, nodes_counterpart h.boxes,
    h.connections, List.filter_map]
  rfl

/-- Boxes that get ready stay in pairs. -/
theorem prepare (h : copy.Counterpart place patch) (sampleRate : Float32) :
    (copy.prepare sampleRate).Counterpart place (patch.prepare sampleRate) := by
  refine ⟨?_, h.connections, h.engine⟩
  rw [Patch.prepare, Patch.prepare, List.forall₂_map_left_iff, List.forall₂_map_right_iff]
  refine h.boxes.imp fun copy box hpair => ?_
  rw [hpair.hasSignals]
  split
  · exact ⟨hpair.id, hpair.inlets, hpair.outlets, hpair.machine.prepare sampleRate⟩
  · exact hpair

end Counterpart

/-- Boxes stay told apart as long as their wiring stays and the chain is about them. -/
theorem Placed.keep {later : Patch} (h : patch.Placed place) (hwiring : patch.SameWiring later)
    (hsteps : ∀ chain ∈ later.engine.chain?, ∀ step ∈ chain.steps, step.id ∈ patch.ids) :
    later.Placed place where
  apart := hwiring.ids ▸ h.apart
  nodup := hwiring.ids ▸ h.nodup
  wires := by
    rw [hwiring.connections, hwiring.ids]
    exact h.wires
  steps := hwiring.ids ▸ hsteps

/-- Chains made anew are the same but for the numbers. -/
theorem Counterpart.rebuild (h : copy.Counterpart place patch) (hplaced : patch.Placed place) :
    copy.rebuild.1.Counterpart place patch.rebuild.1 ∧ patch.rebuild.1.Placed place := by
  have hready := h.prepare patch.engine.sampleRate
  have hwiring := patch.sameWiring_prepare patch.engine.sampleRate
  have hplacedReady : (patch.prepare patch.engine.sampleRate).Placed place :=
    hplaced.keep hwiring hplaced.steps
  have hwithin := hplacedReady.within
  have hnodes := hplacedReady.nodup_nodes
  simp only [Patch.rebuild, h.engine, Engine.renumber, hready.signalGraph,
    Chain.build_renumber hplacedReady.apart hwithin hnodes]
  split
  · cases hbuild : Chain.build Sample.zero (patch.prepare patch.engine.sampleRate).signalGraph
        patch.engine.sampleRate patch.engine.blockSize with
    | ok chain =>
      refine ⟨⟨hready.boxes, hready.connections, ?_⟩, hplacedReady.keep ⟨rfl, rfl, rfl⟩ ?_⟩
      · simp only [hready.engine]
        rfl
      · rintro _ ⟨⟩
        exact Chain.id_mem_of_build hwithin hnodes hbuild
    | error error =>
      refine ⟨⟨hready.boxes, hready.connections, ?_⟩, hplacedReady.keep ⟨rfl, rfl, rfl⟩ ?_⟩
      · simp only [hready.engine]
        rfl
      · rintro _ ⟨⟩
  · exact ⟨h, hplaced⟩

/-- Signal processing that does not run yet starts in the same way. -/
theorem Counterpart.start (h : copy.Counterpart place patch) (hplaced : patch.Placed place)
    (hidle : patch.engine.running = false) (sampleRate : Float32) (blockSize : Nat) :
    (copy.start sampleRate blockSize).1.Counterpart place (patch.start sampleRate blockSize).1 ∧
      (patch.start sampleRate blockSize).1.Placed place := by
  have hcopyIdle : copy.engine.running = false := by
    rw [h.engine]
    exact hidle
  have hstop : patch.stop = patch := if_neg (by simp [hidle])
  have hcopyStop : copy.stop = copy := if_neg (by simp [hcopyIdle])
  unfold Patch.start
  split
  · rw [hstop, hcopyStop]
    refine Counterpart.rebuild ⟨h.boxes, h.connections, ?_⟩ (hplaced.keep ⟨rfl, rfl, rfl⟩ ?_)
    · simp only [h.engine]
      rfl
    · rintro _ ⟨⟩
  · exact ⟨h, hplaced⟩

/-- The chain of the other patch is the chain under the other numbers. -/
theorem Counterpart.chain? (h : copy.Counterpart place patch) :
    copy.engine.chain? = patch.engine.chain?.map (Chain.renumber place) := by
  rw [h.engine]
  rfl

/-- A block gives the same samples. -/
theorem Counterpart.runBlock (h : copy.Counterpart place patch) (hplaced : patch.Placed place) :
    (copy.runBlock Machine.processor).Counterpart place (patch.runBlock Machine.processor) ∧
      (patch.runBlock Machine.processor).Placed place := by
  have hwiring := sameWiring_runBlock hplaced.nodup
  have hcopyChain := h.chain?
  cases hchain : patch.engine.chain? with
  | none =>
    rw [hchain, Option.map_none] at hcopyChain
    simp only [Patch.runBlock, hchain, hcopyChain] at hwiring ⊢
    refine ⟨⟨h.boxes, h.connections, ?_⟩, hplaced.keep hwiring ?_⟩
    · simp only [h.engine]
      rfl
    · rintro _ ⟨⟩
  | some chain =>
    rw [hchain, Option.map_some] at hcopyChain
    have hsteps := hplaced.steps chain hchain
    have hbus : copy.engine.bus = patch.engine.bus := by
      rw [h.engine]
      rfl
    obtain ⟨hlater, ⟨hboxes, -⟩, hbusLater⟩ := Chain.tick_renumber
      (Box.renumbers_processor hplaced.apart) hsteps ⟨h.boxes, rfl⟩ patch.engine.bus
    simp only [Patch.runBlock, hchain, hcopyChain, hbus] at hwiring ⊢
    refine ⟨⟨hboxes, h.connections, ?_⟩, hplaced.keep hwiring ?_⟩
    · rw [hlater, hbusLater, h.engine]
      rfl
    · rintro _ ⟨⟩
      exact hsteps

/-- So does a block with samples from outside. -/
theorem Counterpart.process (h : copy.Counterpart place patch) (hplaced : patch.Placed place)
    (inputs : List (Buffer Sample)) (sizes : List Nat) :
    (copy.process Machine.processor inputs sizes).1.Counterpart place
        (patch.process Machine.processor inputs sizes).1 ∧
      (patch.process Machine.processor inputs sizes).1.Placed place ∧
      (copy.process Machine.processor inputs sizes).2 =
        (patch.process Machine.processor inputs sizes).2 := by
  have hrunning : copy.engine.running = patch.engine.running := by
    rw [h.engine]
    rfl
  unfold Patch.process
  rw [hrunning]
  split
  · have hfed : Counterpart place
        { copy with engine := { copy.engine with
          bus := copy.engine.bus.setInputs Machine.processor.zero inputs } }
        { patch with engine := { patch.engine with
          bus := patch.engine.bus.setInputs Machine.processor.zero inputs } } := by
      refine ⟨h.boxes, h.connections, ?_⟩
      simp only [h.engine]
      rfl
    obtain ⟨hplayed, hplacedLater⟩ := hfed.runBlock (hplaced.keep ⟨rfl, rfl, rfl⟩ hplaced.steps)
    have hbus := congrArg Engine.bus hplayed.engine
    exact ⟨hplayed, hplacedLater, congrArg (fun bus : Bus Sample => (true, sizes.zipIdx.map
      fun entry => Buffer.fit entry.1 Machine.processor.zero (bus.outputs[entry.2]?.getD [])))
      hbus⟩
  · exact ⟨h, hplaced, rfl⟩

/-- Both have the same numbers of channels. -/
theorem Counterpart.channels (h : copy.Counterpart place patch) : copy.channels = patch.channels := by
  rw [Patch.channels, h.engine]
  rfl

/-- Any number of blocks give the same samples. -/
theorem Counterpart.renderBlocks (h : copy.Counterpart place patch) (hplaced : patch.Placed place)
    (blockSize blocks frames : Nat) (inputs : List (Buffer Sample)) :
    (Patch.renderBlocks Machine.processor blockSize blocks frames inputs copy).2 =
      (Patch.renderBlocks Machine.processor blockSize blocks frames inputs patch).2 := by
  induction blocks generalizing frames inputs copy patch with
  | zero => simp only [Patch.renderBlocks, h.channels]
  | succ blocks ih =>
    simp only [Patch.renderBlocks, h.channels]
    obtain ⟨hplayed, hplacedLater, hblock⟩ := h.process hplaced
      ((List.range patch.channels.1).map fun channel =>
        (inputs[channel]?.getD []).take (min blockSize frames))
      (List.replicate patch.channels.2 blockSize)
    rw [congrArg Prod.snd hblock, ih hplayed hplacedLater]

/-- Such patches are rendered with the same samples on every channel, or for the same reason not at
all. -/
theorem Counterpart.render (h : copy.Counterpart place patch) (hplaced : patch.Placed place)
    (hidle : patch.engine.running = false) (settings : RenderSettings)
    (inputs : List (Buffer Sample)) :
    (copy.render Machine.processor settings inputs).map Prod.snd =
      (patch.render Machine.processor settings inputs).map Prod.snd := by
  unfold Patch.render
  split
  · rfl
  · obtain ⟨hstarted, hplacedLater⟩ :=
      h.start hplaced hidle settings.rate settings.blockSize
    simp only [Except.map]
    rw [hstarted.renderBlocks hplacedLater]

/-- When they are started, their boxes are executed in the same order. -/
theorem Counterpart.chainOrder? (h : copy.Counterpart place patch) :
    copy.chainOrder? = patch.chainOrder?.map (List.map place) := by
  rw [Patch.chainOrder?, Patch.chainOrder?, h.chain?, Option.map_map, Option.map_map]
  exact congrFun (congrArg Option.map (funext (Chain.order_renumber place))) _

end Patch

end Patchbay
