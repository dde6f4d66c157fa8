import Patchbay.Proofs.Patch.Audible
import Patchbay.Proofs.Patch.Releasing
import Patchbay.Proofs.Sound.Rendering

/-!
# What is on the input channels

Samples that are handed for an input channel are cut off or filled up with silence, and stay there. A
block for which nothing is handed for a channel finds there what was handed last.
-/

namespace Patchbay

/-- A block that is asked for: with what is on the input channels, or with samples for some of them and
for buffers of some sizes. -/
inductive Demand where
  | tick
  | process (inputs : List (Buffer Sample)) (sizes : List Nat)

namespace Demand

/-- The samples that come with it for a channel. -/
def handed? : Demand → Nat → Option (Buffer Sample)
  | .tick, _ => none
  | .process inputs _, channel => inputs[channel]?

/-- The samples that came last for a channel. -/
def lastHanded? : List Demand → Nat → Option (Buffer Sample)
  | [], _ => none
  | demand :: rest, channel => (lastHanded? rest channel).or (demand.handed? channel)

end Demand

namespace Bus

variable {bus later : Bus Sample} {blockSize : Nat}

/-- What is on the input channels after samples have come for some of them. -/
def taking (bus : Bus Sample) (handed? : Nat → Option (Buffer Sample)) : List (Buffer Sample) :=
  bus.inputs.mapIdx fun channel buffer =>
    ((handed? channel).map (Buffer.fit buffer.length .zero)).getD buffer

/-- If no samples come, all is as before. -/
theorem taking_none (bus : Bus Sample) : bus.taking (fun _ => none) = bus.inputs :=
  List.mapIdx_eq_iff.mpr fun channel => by simp

/-- Samples that are put on the input channels are there afterwards. -/
theorem inputs_setInputs (bus : Bus Sample) (inputs : List (Buffer Sample)) :
    (bus.setInputs .zero inputs).inputs = bus.taking (inputs[·]?) := by
  refine List.mapIdx_eq_mapIdx_iff.mpr fun channel _ => ?_
  dsimp only
  cases inputs[channel]? <;> rfl

/-- Of samples that come one after the other for a channel the last are there. -/
theorem taking_taking {first second : Nat → Option (Buffer Sample)}
    (h : later.inputs = bus.taking first) :
    later.taking second = bus.taking fun channel => (second channel).or (first channel) := by
  rw [taking, h, taking, List.mapIdx_mapIdx]
  refine List.mapIdx_eq_mapIdx_iff.mpr fun channel _ => ?_
  dsimp only
  cases first channel <;> cases second channel <;> simp [Buffer.length_fit]

/-- What has come for the channels, and for the others what was there. -/
def heard (bus : Bus Sample) (handed? : Nat → Option (Buffer Sample)) : List (Buffer Sample) :=
  bus.inputs.mapIdx fun channel buffer => (handed? channel).getD buffer

/-- It comes to the same if what was there comes again. -/
theorem Sized.taking_eq_feed (h : bus.Sized blockSize) (handed? : Nat → Option (Buffer Sample)) :
    bus.taking handed? = Buffer.feed bus.inputs.length blockSize (bus.heard handed?) := by
  refine List.ext_getElem (by simp [taking, Buffer.feed]) fun channel hchannel _ => ?_
  rw [taking, List.length_mapIdx] at hchannel
  have hlength := h.inputs _ (List.getElem_mem hchannel)
  have hfits : Buffer.fit blockSize .zero bus.inputs[channel] = bus.inputs[channel] := by
    simp [Buffer.fit, ← hlength]
  cases hhanded : handed? channel <;> simp [taking, heard, Buffer.feed, hlength, hhanded, hfits, hchannel]

end Bus

/-- Silence is the same as nothing. -/
theorem Buffer.fit_silent {samples : Buffer Sample} (h : ∀ sample ∈ samples, sample = .zero) (size : Nat) :
    fit size .zero samples = fit size .zero [] := by
  rw [fit, List.eq_replicate_of_mem h, List.take_replicate, List.replicate_append_replicate,
    List.length_replicate, fit, List.take_nil, List.nil_append, List.length_nil]
  congr 1
  omega

/-- Channels are fed with samples of their size as they are. -/
theorem Buffer.feed_feed (channels size : Nat) (inputs : List (Buffer Sample)) :
    feed channels size (feed channels size inputs) = feed channels size inputs := by
  refine List.map_congr_left fun channel hchannel => ?_
  have hat : (feed channels size inputs)[channel]? = some (fit size .zero (inputs[channel]?.getD [])) := by
    rw [feed, List.getElem?_map, List.getElem?_range (List.mem_range.mp hchannel), Option.map_some]
  rw [hat, Option.getD_some, fit, List.take_of_length_le (length_fit _ _ _).le, length_fit, Nat.sub_self,
    List.replicate_zero, List.append_nil]

namespace Patch

variable {patch later last : Patch}

/-! ### Answering demands -/

/-- Answer a demand. -/
def meet (patch : Patch) : Demand → Patch
  | .tick => (patch.tick Machine.processor).1
  | .process inputs sizes => (patch.process Machine.processor inputs sizes).1

/-- Answer demands one after the other. -/
def meetAll (patch : Patch) (demands : List Demand) : Patch := demands.foldl meet patch

/-- Each demand brings about a block. -/
theorem blocks_meetAll (patch : Patch) (demands : List Demand) :
    Relation.ReflTransGen Block patch (patch.meetAll demands) := by
  induction demands generalizing patch with
  | nil => exact .refl
  | cons demand rest ih =>
    refine .head ?_ (ih (patch.meet demand))
    cases demand with
    | tick => exact .tick patch
    | process inputs sizes => exact .process patch inputs sizes

/-- One patch comes of another by blocks for which samples have come. -/
structure Retains (handed? : Nat → Option (Buffer Sample)) (patch later : Patch) : Prop where
  inputs : later.engine.bus.inputs = patch.engine.bus.taking handed?
  running : later.engine.running = patch.engine.running
  blockSize : later.engine.blockSize = patch.engine.blockSize

/-- A block changes nothing on the input channels. -/
theorem retains_runBlock (patch : Patch) (processor : Processor Sample (List Box)) :
    Retains (fun _ => none) patch (patch.runBlock processor) := by
  unfold runBlock
  split
  · next chain _ =>
    have hinputs := (chain.channels_tick processor patch.boxes patch.engine.bus).1
    exact ⟨hinputs.trans patch.engine.bus.taking_none.symm, rfl, rfl⟩
  · exact ⟨patch.engine.bus.taking_none.symm, rfl, rfl⟩

/-- What comes later goes before what has come earlier. -/
theorem Retains.trans {first second : Nat → Option (Buffer Sample)} (h : Retains first patch later)
    (hlast : Retains second later last) :
    Retains (fun channel => (second channel).or (first channel)) patch last :=
  ⟨hlast.inputs.trans (Bus.taking_taking h.inputs), hlast.running.trans h.running,
    hlast.blockSize.trans h.blockSize⟩

/-- After a demand those samples are on the input channels that came with it, and else what was there. -/
theorem retains_meet (hrunning : patch.engine.running = true) (demand : Demand) :
    Retains demand.handed? patch (patch.meet demand) := by
  cases demand with
  | tick =>
    rw [meet, tick, if_pos hrunning]
    exact patch.retains_runBlock Machine.processor
  | process inputs sizes =>
    rw [meet, process, if_pos hrunning]
    let fed : Patch := { patch with
      engine := { patch.engine with bus := patch.engine.bus.setInputs Machine.processor.zero inputs } }
    have hfed : Retains (inputs[·]?) patch fed := ⟨patch.engine.bus.inputs_setInputs inputs, rfl, rfl⟩
    exact hfed.trans (fed.retains_runBlock Machine.processor)

/-- After any number of demands those samples are there that came last. -/
theorem retains_meetAll (hrunning : patch.engine.running = true) (demands : List Demand) :
    Retains (Demand.lastHanded? demands) patch (patch.meetAll demands) := by
  induction demands generalizing patch with
  | nil => exact ⟨patch.engine.bus.taking_none.symm, rfl, rfl⟩
  | cons demand rest ih =>
    have hfirst := retains_meet hrunning demand
    exact hfirst.trans (ih (hfirst.running.trans hrunning))

/-! ### One more block -/

/-- What is on the input channels for a block after other demands: for each channel the samples that come
with the block, or those that came last, or what was there before. -/
def supplied (patch : Patch) (demands : List Demand) (inputs : List (Buffer Sample)) :
    List (Buffer Sample) :=
  patch.engine.bus.heard fun channel => inputs[channel]?.or (Demand.lastHanded? demands channel)

/-- It makes no difference what samples come as long as the same are on the input channels. -/
theorem process_congr {inputs others : List (Buffer Sample)}
    (h : (patch.engine.bus.setInputs .zero others).inputs =
      (patch.engine.bus.setInputs .zero inputs).inputs) (sizes : List Nat) :
    patch.process Machine.processor others sizes = patch.process Machine.processor inputs sizes := by
  have hbus : patch.engine.bus.setInputs Machine.processor.zero others =
      patch.engine.bus.setInputs Machine.processor.zero inputs :=
    congrArg (fun channels => Bus.mk channels patch.engine.bus.outputs) h
  rw [process, process, hbus]

namespace Intact

/-- What a running patch gives out depends on its boxes, its wires, the size of its blocks and its
channels, with what is on the inputs of these; nothing else is left of blocks that came before. -/
theorem process_eq (h : patch.Intact) (hlater : later.Intact) (hrunning : patch.engine.running = true)
    (hrunningLater : later.engine.running = true) (hboxes : later.boxes = patch.boxes)
    (hwires : later.connections = patch.connections)
    (hsize : later.engine.blockSize = patch.engine.blockSize) (hchannels : later.channels = patch.channels)
    {inputs others : List (Buffer Sample)}
    (hfed : (later.engine.bus.setInputs .zero others).inputs =
      (patch.engine.bus.setInputs .zero inputs).inputs) (sizes : List Nat) :
    (later.process Machine.processor others sizes).2 = (patch.process Machine.processor inputs sizes).2 ∧
      (later.process Machine.processor others sizes).1.boxes =
        (patch.process Machine.processor inputs sizes).1.boxes := by
  have hgraph : later.signalGraph = patch.signalGraph := by
    rw [Patch.signalGraph, Patch.signalGraph, hboxes, hwires]
  have hmixing : Machine.mixing Sample.add Sample.add = Machine.processor := rfl
  obtain ⟨-, -, -, hblock, hgiven⟩ :=
    (h.plays hrunning).process_mixing h.wired.sound Sample.add Sample.add (inputs, sizes)
  obtain ⟨-, -, -, hblockLater, hgivenLater⟩ :=
    (hlater.plays hrunningLater).process_mixing hlater.wired.sound Sample.add Sample.add (others, sizes)
  have hcount : later.engine.bus.outputs.length = patch.engine.bus.outputs.length :=
    congrArg Prod.snd hchannels
  dsimp only at hblock hgiven hblockLater hgivenLater
  rw [hmixing] at hblock hgiven hblockLater hgivenLater
  rw [hgraph, hboxes, hsize, hcount, hfed] at hblockLater
  obtain ⟨hboxesAfter, houtputs⟩ := Prod.mk.inj (hblockLater.trans hblock.symm)
  refine ⟨Prod.ext ?_ ?_, hboxesAfter⟩
  · rw [process, process, if_pos hrunning, if_pos hrunningLater]
  · rw [hgiven, hgivenLater, houtputs]

/-- After other demands all that a block finds on the input channels has been supplied. -/
theorem setInputs_supplied (h : patch.Intact) (hrunning : patch.engine.running = true)
    (demands : List Demand) (inputs : List (Buffer Sample)) :
    ((patch.meetAll demands).engine.bus.setInputs .zero inputs).inputs =
      Buffer.feed patch.channels.1 patch.engine.blockSize (patch.supplied demands inputs) := by
  rw [Bus.inputs_setInputs, Bus.taking_taking (retains_meetAll hrunning demands).inputs]
  exact (h.upkept.sound.sized hrunning).taking_eq_feed _

/-- Samples that are silent where none come with the block might as well not have been supplied. -/
theorem feed_supplied {demands : List Demand} {inputs : List (Buffer Sample)}
    (hsilent : ∀ channel samples, inputs.length ≤ channel →
      (patch.supplied demands inputs)[channel]? = some samples → ∀ sample ∈ samples, sample = .zero) :
    Buffer.feed patch.channels.1 patch.engine.blockSize (patch.supplied demands inputs) =
      Buffer.feed patch.channels.1 patch.engine.blockSize inputs := by
  refine List.map_congr_left fun channel hchannel => ?_
  have hbound : channel < patch.engine.bus.inputs.length := List.mem_range.mp hchannel
  have hsupplied : (patch.supplied demands inputs)[channel]? =
      some ((inputs[channel]?.or (Demand.lastHanded? demands channel)).getD
        patch.engine.bus.inputs[channel]) := by
    rw [supplied, Bus.heard, List.getElem?_mapIdx, List.getElem?_eq_getElem hbound, Option.map_some]
  cases hgiven : inputs[channel]? with
  | some given => rw [hsupplied, hgiven, Option.some_or]; rfl
  | none =>
    rw [hsupplied, Option.getD_some, Option.getD_none]
    exact Buffer.fit_silent (hsilent channel _ (List.getElem?_eq_none_iff.mp hgiven) hsupplied) _

end Intact

end Patch

end Patchbay
