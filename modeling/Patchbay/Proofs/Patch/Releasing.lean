import Patchbay.Proofs.Studio.Running
import Patchbay.Proofs.Patch.Intact

/-!
# Boxes back at the start

A box that is released goes back to the start, and nothing of the blocks it has computed is left. When a
running patch is stopped, the boxes in its chain are released. If its signal wires form no cycle these
are all the boxes that have a place to go back from, so what was played is not heard after the next
start. While the wires form a cycle there is no chain, and no box is released.
-/

namespace Patchbay

namespace Machine

variable (machine : Machine)

/-- A block leaves nothing behind in a machine that goes back to the start after it. -/
theorem release_perform (inputs : Inputs Sample) (buffers : List (Buffer Sample)) :
    (machine.perform inputs buffers).1.release = machine.release := by
  cases machine with
  | audio state => cases state <;> rfl
  | bench state =>
    simp only [perform, Bench.perform]
    split <;> rfl
  | control | wireless | timing => rfl

/-- So it is if the block is computed in place. -/
theorem release_performInPlace (buffer : Buffer Sample) :
    (machine.performInPlace buffer).1.release = machine.release := by
  cases machine with
  | audio state => cases state <;> rfl
  | control | wireless | timing | bench => rfl

variable {machine}

/-- An oscillator that has gone back to the start is at the start of a turn. -/
theorem phase_of_release {frequency : Sample} {phase : Phase} {rate : Float}
    (h : machine.release = .audio (.oscillator frequency phase rate)) : phase = .start := by
  cases machine with
  | audio state =>
    cases state with
    | oscillator =>
      simp only [release, Audio.release, audio.injEq, Audio.oscillator.injEq] at h
      exact h.2.1.symm
    | constant | combine | input | output => cases h
  | control | wireless | timing | bench => cases h

end Machine

namespace Box

/-- The box when it has gone back to the start. -/
def released (box : Box) : Box := { box with machine := box.machine.release }

/-- A box that takes no part in signal processing stands at the start anyway. -/
theorem Built.released_eq {box : Box} (h : box.Built)
    (hidle : ¬(box.hasSignals = true ∧ box.machine.isReady = true)) : box.released = box := by
  -- Oscillators alone have a place to go back from, and their outlet is one for signals.
  have hrelease : box.machine.release = box.machine := by
    cases hmachine : box.machine with
    | audio state =>
      cases state with
      | oscillator frequency phase rate =>
        have hready : box.machine.isReady = true := by rw [hmachine]; rfl
        have hprofile := h.profile hready
        rw [hmachine] at hprofile
        obtain ⟨-, hsignals⟩ := Prod.mk.inj (Prod.mk.inj hprofile).2
        have houtlet : box.outlets.any Outlet.signal = true := by
          have hany : (box.outlets.map Outlet.signal).any (· == true) = true := by rw [← hsignals]; rfl
          simpa [List.any_map, Function.comp_def] using hany
        exact absurd ⟨by rw [Box.hasSignals, houtlet, Bool.or_true], hready⟩ hidle
      | constant | combine | input | output => rfl
    | control | wireless | timing | bench => rfl
  rw [released, hrelease]

end Box

/-- A block leaves the input channels as they are, and the output channels at their sizes. -/
theorem Chain.channels_tick {σ S : Type} (processor : Processor σ S) (chain : Chain σ) (boxes : S)
    (bus : Bus σ) :
    (chain.tick processor boxes bus).2.2.inputs = bus.inputs ∧
      Buffer.sizes (chain.tick processor boxes bus).2.2.outputs = Buffer.sizes bus.outputs := by
  refine Chain.tick_keeps (fun (_ : S) later =>
    later.inputs = bus.inputs ∧ Buffer.sizes later.outputs = Buffer.sizes bus.outputs) ?_ ?_ chain ?_
  · intro _ later _ _ _ h
    exact ⟨(Chain.inputs_foldl_addOutput _ _ _).trans h.1,
      (Dataflow.sizes_foldl_addOutput _ _ _).trans h.2⟩
  · exact fun _ _ _ _ h => h
  · refine ⟨rfl, ?_⟩
    simp [Bus.clearOutputs, Buffer.sizes, Buffer.constant]

namespace Patch

variable {patch later last : Patch}

/-! ### What a stop releases -/

/-- The boxes that take part in signal processing have the numbers in its order, if there is no cycle. -/
theorem Wired.mem_order_iff (h : patch.Wired) (hacyclic : patch.signalGraph.Acyclic) {box : Box}
    (hbox : box ∈ patch.boxes) :
    box.id ∈ patch.signalGraph.order ↔ box.hasSignals = true ∧ box.machine.isReady = true := by
  have hlength := (SignalGraph.length_order_iff_acyclic h.sound.nodup).mpr hacyclic
  rw [(SignalGraph.order_perm h.sound.nodup hlength).mem_iff]
  constructor
  · intro hid
    obtain ⟨node, hnode, hsame⟩ := List.mem_map.mp hid
    obtain ⟨hmem, hready⟩ := List.mem_filter.mp hnode
    obtain ⟨other, hother, rfl⟩ := List.mem_map.mp hmem
    obtain ⟨hboxes, hsignals⟩ := List.mem_filter.mp hother
    obtain rfl := List.inj_on_of_nodup_map h.nodup hboxes hbox hsame
    exact ⟨hsignals, hready⟩
  · rintro ⟨hsignals, hready⟩
    exact List.mem_map.mpr ⟨box.node, List.mem_filter.mpr
      ⟨List.mem_map_of_mem (List.mem_filter.mpr ⟨hbox, hsignals⟩), hready⟩, rfl⟩

/-- A stop releases the boxes in the chain. -/
theorem boxes_stop_eq (hrunning : patch.engine.running = true) :
    patch.stop.boxes = patch.boxes.map fun box =>
      if (patch.chainOrder?.getD []).contains box.id then box.released else box := by
  rw [stop, if_pos hrunning, chainOrder?]
  cases patch.engine.chain? <;> rfl

namespace Intact

/-- If the signal wires of a running patch form no cycle, every box goes back to the start when the patch
is stopped. -/
theorem boxes_stop (h : patch.Intact) (hrunning : patch.engine.running = true)
    (hacyclic : patch.signalGraph.Acyclic) : patch.stop.boxes = patch.boxes.map Box.released := by
  rw [boxes_stop_eq hrunning, h.upkept.chainOrder?_eq h.wired hrunning,
    if_pos ((SignalGraph.length_order_iff_acyclic h.wired.sound.nodup).mpr hacyclic), Option.getD_some]
  refine List.map_congr_left fun box hbox => ?_
  split
  · rfl
  · next hout =>
    rw [List.contains_iff_mem, h.wired.mem_order_iff hacyclic hbox] at hout
    exact ((h.built box hbox).released_eq hout).symm

/-- If they form a cycle, every box stays as it is. -/
theorem boxes_stop_of_cycle (h : patch.Intact) (hrunning : patch.engine.running = true)
    (hcycle : ¬patch.signalGraph.Acyclic) : patch.stop.boxes = patch.boxes := by
  rw [boxes_stop_eq hrunning, h.upkept.chainOrder?_eq h.wired hrunning,
    if_neg (mt (SignalGraph.length_order_iff_acyclic h.wired.sound.nodup).mp hcycle), Option.getD_none]
  exact List.map_id _

end Intact

/-! ### What is left of blocks -/

/-- A patch computes a block, with samples from outside or with those on its input channels. -/
inductive Block : Patch → Patch → Prop where
  | tick (patch : Patch) : Block patch (patch.tick Machine.processor).1
  | process (patch : Patch) (inputs : List (Buffer Sample)) (sizes : List Nat) :
    Block patch (patch.process Machine.processor inputs sizes).1

/-- A block is one of the changes of a patch. -/
theorem Block.change (h : patch.Block later) : patch.Change later := by
  cases h with
  | tick => exact .tick patch
  | process inputs sizes => exact .process patch inputs sizes

/-- The patch with signal processing set going, before it has a chain. -/
def launched (patch : Patch) (sampleRate : Float32) (blockSize : Nat) : Patch :=
  { patch with
    engine :=
      { running := true
        sampleRate
        blockSize
        bus := .silent .zero patch.channels.1 patch.channels.2 blockSize } }

/-- Nothing of its engine but the numbers of channels matters when a patch is started that does not
run. -/
theorem start_of_idle (hidle : patch.engine.running = false) {sampleRate : Float32} {blockSize : Nat}
    (hvalid : Chain.validSettings sampleRate blockSize = true) :
    patch.start sampleRate blockSize =
      ((patch.launched sampleRate blockSize).rebuild.1,
        (patch.launched sampleRate blockSize).rebuild.2.map .chain) := by
  have hstop : patch.stop = patch := by rw [Patch.stop, hidle]; rfl
  rw [start, if_pos hvalid, hstop]
  rfl

/-- Two patches are the same but for how far their boxes have got, for their chains and for the samples
on their channels. -/
structure SameAtStart (patch later : Patch) : Prop where
  boxes : later.boxes.map Box.released = patch.boxes.map Box.released
  retired : later.retired = patch.retired
  connections : later.connections = patch.connections
  nextId : later.nextId = patch.nextId
  depthLimit : later.depthLimit = patch.depthLimit
  running : later.engine.running = patch.engine.running
  channels : later.channels = patch.channels

namespace SameAtStart

theorem refl (patch : Patch) : patch.SameAtStart patch := ⟨rfl, rfl, rfl, rfl, rfl, rfl, rfl⟩

theorem trans (h : patch.SameAtStart later) (hlast : later.SameAtStart last) : patch.SameAtStart last :=
  ⟨hlast.boxes.trans h.boxes, hlast.retired.trans h.retired, hlast.connections.trans h.connections,
    hlast.nextId.trans h.nextId, hlast.depthLimit.trans h.depthLimit, hlast.running.trans h.running,
    hlast.channels.trans h.channels⟩

/-- Boxes that are the same at the start have the same faces. -/
theorem faces (h : patch.SameAtStart later) : later.boxes.map Box.face = patch.boxes.map Box.face := by
  have hface : ∀ boxes : List Box, boxes.map Box.face = (boxes.map Box.released).map Box.face := by
    intro boxes
    rw [List.map_map]
    refine List.map_congr_left fun box _ => ?_
    simp only [Function.comp_apply, Box.face, Box.released, Machine.profile_release]
  rw [hface, h.boxes, ← hface]

/-- So the wires form a cycle in both or in none. -/
theorem signalGraph (h : patch.SameAtStart later) : later.signalGraph = patch.signalGraph := by
  rw [signalGraph_eq, signalGraph_eq, h.faces, h.connections]

/-- When both are stopped, with no cycle, they start alike. -/
theorem start_stop (h : patch.SameAtStart later) (hintact : patch.Intact) (hintactLater : later.Intact)
    (hrunning : patch.engine.running = true) (hacyclic : patch.signalGraph.Acyclic)
    {sampleRate : Float32} {blockSize : Nat}
    (hvalid : Chain.validSettings sampleRate blockSize = true) :
    later.stop.start sampleRate blockSize = patch.stop.start sampleRate blockSize := by
  have hrunningLater := h.running.trans hrunning
  have hboxes : later.stop.boxes = patch.stop.boxes := by
    rw [hintactLater.boxes_stop hrunningLater (h.signalGraph ▸ hacyclic),
      hintact.boxes_stop hrunning hacyclic, h.boxes]
  have hchannels : later.stop.channels = patch.stop.channels := by
    rw [channels_stop, channels_stop, h.channels]
  have hsame : later.stop.launched sampleRate blockSize = patch.stop.launched sampleRate blockSize := by
    unfold launched
    rw [hboxes, hchannels]
    simp only [Patch.stop, hrunning, hrunningLater, if_true, h.retired, h.connections, h.nextId,
      h.depthLimit]
  rw [start_of_idle (running_stop _) hvalid, start_of_idle (running_stop _) hvalid, hsame]

end SameAtStart

/-- A block leaves a patch as it is at the start. -/
theorem sameAtStart_runBlock (hids : patch.ids.Nodup) :
    patch.SameAtStart (patch.runBlock Machine.processor) := by
  unfold runBlock
  split
  · next chain _ =>
    obtain ⟨hinputs, hsizes⟩ := chain.channels_tick Machine.processor patch.boxes patch.engine.bus
    have hcount := congrArg List.length hsizes
    rw [Buffer.sizes, Buffer.sizes, List.length_map, List.length_map] at hcount
    refine ⟨Chain.map_tick (fun box inputs buffers => ?_) (fun box buffer => ?_) _ hids _, rfl, rfl, rfl, rfl,
      rfl, Prod.ext (congrArg List.length hinputs) hcount⟩
    · simp only [Box.released, Machine.release_perform]
    · simp only [Box.released, Machine.release_performInPlace]
  · exact ⟨rfl, rfl, rfl, rfl, rfl, rfl, Prod.ext rfl (List.length_map _)⟩

/-- So it is whatever comes from outside. -/
theorem Block.sameAtStart (h : patch.Block later) (hids : patch.ids.Nodup) :
    patch.SameAtStart later := by
  cases h with
  | tick =>
    unfold Patch.tick
    split
    · exact sameAtStart_runBlock hids
    · exact .refl patch
  | process inputs sizes =>
    unfold Patch.process
    split
    · have hfed : patch.SameAtStart { patch with
          engine := { patch.engine with
            bus := patch.engine.bus.setInputs Machine.processor.zero inputs } } :=
        ⟨rfl, rfl, rfl, rfl, rfl, rfl, Prod.ext List.length_mapIdx rfl⟩
      exact hfed.trans (sameAtStart_runBlock hids)
    · exact .refl patch

/-- Blocks one after the other leave an intact patch intact, and as it is at the start. -/
theorem Intact.blocks (h : patch.Intact) (hblocks : Relation.ReflTransGen Block patch later) :
    later.Intact ∧ patch.SameAtStart later := by
  induction hblocks with
  | refl => exact ⟨h, .refl patch⟩
  | tail _ hblock ih =>
    obtain ⟨hintact, hsame⟩ := ih
    have hstep := hblock.sameAtStart hintact.wired.nodup
    exact ⟨hintact.change_of_nextId hblock.change hstep.nextId, hsame.trans hstep⟩

end Patch

end Patchbay
