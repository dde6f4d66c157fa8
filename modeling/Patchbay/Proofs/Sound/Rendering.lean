import Patchbay.Proofs.Number.Packing
import Patchbay.Proofs.Sound.Progress

/-!
# Rendering in blocks of any size

Rendering computes blocks of a fixed size, of which the last may reach beyond the frames that are asked
for. Since all boxes compute a block in two parts as they do at once, it comes to the same as one block of
all frames, so that the block size makes no difference.
-/

namespace Patchbay

/-- What channels are fed with: the samples that there are for them, and silence behind. -/
def Buffer.feed (channels size : Nat) (inputs : List (Buffer Sample)) : List (Buffer Sample) :=
  (List.range channels).map fun channel => Buffer.fit size Sample.zero (inputs[channel]?.getD [])

namespace Buffer

variable {σ : Type} {start count size : Nat}

/-- Samples beyond the size that they are brought to make no difference. -/
theorem fit_take (h : size ≤ count) (filler : σ) (samples : Buffer σ) :
    fit size filler (samples.take count) = fit size filler samples := by
  apply List.ext_getElem?
  intro index
  simp only [getElem?_fit]
  split
  · rw [List.getElem?_take_of_lt (by omega)]
  · rfl

/-- A stretch of what channels are fed with. -/
theorem stretch_feed (h : start + count ≤ size) (channels : Nat) (inputs : List (Buffer Sample)) :
    (feed channels size inputs).map (stretch start count) =
      feed channels count (inputs.map (List.drop start)) := by
  rw [feed, List.map_map]
  refine List.map_congr_left fun channel _ => ?_
  rw [Function.comp_apply, stretch_fit h, stretch, fit_take (Nat.le_refl count), List.getElem?_map]
  cases inputs[channel]? with
  | none => rw [Option.getD_none, List.drop_nil]; rfl
  | some samples => rfl

/-- Buffers of no size are empty. -/
theorem eq_replicate_nil_of_sizes {buffers : List (Buffer σ)} {channels : Nat}
    (h : sizes buffers = List.replicate channels 0) : buffers = List.replicate channels [] := by
  refine List.eq_replicate_iff.mpr ⟨by simpa [sizes] using congrArg List.length h, ?_⟩
  intro buffer hbuffer
  have hlength : buffer.length ∈ List.replicate channels 0 := h ▸ List.mem_map_of_mem hbuffer
  exact List.length_eq_zero_iff.mp (List.eq_of_mem_replicate hlength)

/-- Buffers are put together from two parts. -/
theorem join_eq {buffers : List (Buffer σ)} {channels : Nat}
    (h : sizes buffers = List.replicate channels (start + count)) :
    List.zipWith (fun samples rest => samples.take start ++ rest) (buffers.map (stretch 0 start))
      (buffers.map (stretch start count)) = buffers := by
  rw [List.zipWith_map, List.zipWith_self]
  refine (List.map_congr_left fun buffer hbuffer => ?_).trans (List.map_id _)
  have hlength : buffer.length ∈ List.replicate channels (start + count) :=
    h ▸ List.mem_map_of_mem hbuffer
  have hfront : (buffer.stretch 0 start).take start = buffer.stretch 0 start := by
    rw [stretch, List.take_take, Nat.min_self]
  rw [hfront]
  exact stretch_append_stretch (List.eq_of_mem_replicate hlength)

/-- Buffers with nothing behind them are cut off. -/
theorem cut_eq {buffers : List (Buffer σ)} {channels : Nat} (h : buffers.length = channels) :
    List.zipWith (fun samples rest => samples.take count ++ rest) buffers
      (List.replicate channels []) = buffers.map (stretch 0 count) := by
  rw [← h, ← List.map_const', List.zipWith_map_right, List.zipWith_self]
  exact List.map_congr_left fun buffer _ => List.append_nil _

end Buffer

/-- Samples for all channels of a bus leave nothing of what was there. -/
theorem Bus.Sized.setInputs_feed {bus : Bus Sample} {blockSize : Nat} (h : bus.Sized blockSize)
    {inputs : List (Buffer Sample)} (hall : bus.inputs.length ≤ inputs.length) :
    (bus.setInputs .zero inputs).inputs = Buffer.feed bus.inputs.length blockSize inputs := by
  refine List.ext_getElem (by simp [Bus.setInputs, Buffer.feed]) fun channel hchannel _ => ?_
  rw [Bus.setInputs, List.length_mapIdx] at hchannel
  have hlength := h.inputs _ (List.getElem_mem hchannel)
  simp [Bus.setInputs, Buffer.feed, hlength, List.getElem?_eq_getElem (hchannel.trans_le hall)]

/-- So it is if each is cut off at a size. -/
theorem Bus.Sized.setInputs_eq {bus : Bus Sample} {blockSize : Nat} (h : bus.Sized blockSize)
    (inputs : List (Buffer Sample)) (size : Nat) :
    (bus.setInputs .zero ((List.range bus.inputs.length).map fun channel =>
        (inputs[channel]?.getD []).take size)).inputs =
      Buffer.feed bus.inputs.length blockSize (inputs.map (List.take size)) := by
  rw [h.setInputs_feed (by simp)]
  refine List.map_congr_left fun channel hchannel => ?_
  rw [List.getElem?_map, List.getElem?_map, List.getElem?_range (List.mem_range.mp hchannel),
    Option.map_some, Option.getD_some]
  cases inputs[channel]? with
  | none => rw [Option.getD_none, List.take_nil]; rfl
  | some samples => rfl

namespace Patch

variable {patch : Patch} {graph : SignalGraph}

/-- What the boxes of a graph that are played make of samples in one block of all frames, with a number of
input and of output channels. -/
def wholeBlock (graph : SignalGraph) (channels : Nat × Nat) (frames : Nat) (boxes : List Box)
    (inputs : List (Buffer Sample)) : List Box × List (Buffer Sample) :=
  Dataflow.block Machine.processor graph.wires graph.played channels.2 frames boxes
    (Buffer.feed channels.1 frames inputs)

/-- It gives a sample for every frame on every output channel. -/
theorem sizes_wholeBlock (graph : SignalGraph) (channels : Nat × Nat) (frames : Nat)
    (boxes : List Box) (inputs : List (Buffer Sample)) :
    Buffer.sizes (wholeBlock graph channels frames boxes inputs).2 =
      List.replicate channels.2 frames :=
  Dataflow.sizes_block _ _ _ _ _

/-- Samples beyond the frames make no difference. -/
theorem wholeBlock_take (graph : SignalGraph) (channels : Nat × Nat) (frames : Nat)
    (boxes : List Box) (inputs : List (Buffer Sample)) :
    wholeBlock graph channels frames boxes (inputs.map (List.take frames)) =
      wholeBlock graph channels frames boxes inputs := by
  have hfeed : Buffer.feed channels.1 frames (inputs.map (List.take frames)) =
      Buffer.feed channels.1 frames inputs := by
    refine List.map_congr_left fun channel _ => ?_
    rw [List.getElem?_map]
    cases inputs[channel]? with
    | none => rfl
    | some samples => exact Buffer.fit_take (Nat.le_refl frames) _ samples
  rw [wholeBlock, hfeed, wholeBlock]

/-- The frames may be divided in two blocks. -/
theorem wholeBlock_split (hsound : graph.Sound) {boxes : List Box} (hmirrors : graph.Mirrors boxes)
    (channels : Nat × Nat) (first second : Nat) (inputs : List (Buffer Sample)) :
    (wholeBlock graph channels first boxes inputs).2 =
        (wholeBlock graph channels (first + second) boxes inputs).2.map (Buffer.stretch 0 first) ∧
      (wholeBlock graph channels second (wholeBlock graph channels first boxes inputs).1
          (inputs.map (List.drop first))).2 =
        (wholeBlock graph channels (first + second) boxes inputs).2.map
          (Buffer.stretch first second) := by
  have hsplit := Dataflow.block_split graph.wires Machine.processor_separate
    hsound.nodup_played (fun node hnode => hmirrors.splits (graph.played_subset hnode)) channels.2
    first second (Buffer.feed channels.1 (first + second) inputs)
  have hfront := Buffer.stretch_feed (by omega : 0 + first ≤ first + second) channels.1 inputs
  rw [show inputs.map (List.drop 0) = inputs from List.map_id inputs] at hfront
  rw [hfront, Buffer.stretch_feed (Nat.le_refl (first + second))] at hsplit
  exact hsplit

/-- The first of several blocks is a block of the boxes that are played, cut off at the frames that are
left, and the others come from the patch that it leaves. -/
theorem Plays.renderBlocks_succ (h : patch.Plays graph) (hsound : graph.Sound) {blockSize : Nat}
    (hsize : patch.engine.blockSize = blockSize) (blocks frames : Nat)
    (inputs : List (Buffer Sample)) :
    ∃ played : Patch, played.Plays graph ∧ played.engine.blockSize = blockSize ∧
      played.channels = patch.channels ∧ ∃ given,
        (played.boxes, given) = wholeBlock graph patch.channels blockSize patch.boxes
          (inputs.map (List.take (min blockSize frames))) ∧
        (renderBlocks Machine.processor blockSize (blocks + 1) frames inputs patch).2 =
          List.zipWith (fun samples rest => samples.take (min blockSize frames) ++ rest) given
            (renderBlocks Machine.processor blockSize blocks (frames - min blockSize frames)
              (inputs.map (List.drop blockSize)) played).2 := by
  obtain ⟨hnext, hnextSize, hchannels, hblock⟩ := h.process hsound
    ((List.range patch.channels.1).map fun channel =>
      (inputs[channel]?.getD []).take (min blockSize frames))
  have hfed := h.sized.setInputs_eq inputs (min blockSize frames)
  subst hsize
  exact ⟨_, hnext, hnextSize, hchannels, _, hblock.trans (congrArg _ hfed), rfl⟩

/-- Blocks that cover all frames, rendered one after the other, give what one block of all frames does. -/
theorem Plays.renderBlocks_eq (h : patch.Plays graph) (hsound : graph.Sound) {blockSize : Nat}
    (hsize : patch.engine.blockSize = blockSize) {blocks frames : Nat}
    (hcover : frames ≤ blocks * blockSize) (inputs : List (Buffer Sample)) :
    (renderBlocks Machine.processor blockSize blocks frames inputs patch).2 =
      (wholeBlock graph patch.channels frames patch.boxes inputs).2 := by
  -- The induction is on the blocks still to come; the frames are those still to be rendered.
  induction blocks generalizing patch frames inputs with
  | zero =>
    obtain rfl : frames = 0 := by omega
    exact (Buffer.eq_replicate_nil_of_sizes (sizes_wholeBlock _ _ _ _ _)).symm
  | succ blocks ih =>
    obtain ⟨played, hplays, hplayedSize, hchannels, given, hgiven, hrender⟩ :=
      h.renderBlocks_succ hsound hsize blocks frames inputs
    have hlater := ih hplays hplayedSize
      (by rw [Nat.succ_mul] at hcover; omega : frames - min blockSize frames ≤ blocks * blockSize)
      (inputs.map (List.drop blockSize))
    rw [hrender, hlater, hchannels]
    rcases Nat.le_total blockSize frames with hfull | hlast
    · obtain ⟨rest, rfl⟩ := Nat.exists_eq_add_of_le hfull
      obtain ⟨hfront, hback⟩ := wholeBlock_split hsound h.mirrors patch.channels blockSize rest inputs
      rw [Nat.min_eq_left hfull, wholeBlock_take] at hgiven
      rw [← hgiven] at hfront hback
      rw [Nat.min_eq_left hfull, Nat.add_sub_cancel_left, hback, show given = _ from hfront]
      exact Buffer.join_eq (sizes_wholeBlock _ _ _ _ _)
    · rw [Nat.min_eq_right hlast] at hgiven ⊢
      obtain ⟨hfront, -⟩ := wholeBlock_split hsound h.mirrors patch.channels frames
        (blockSize - frames) (inputs.map (List.take frames))
      rw [Nat.add_sub_cancel' hlast, wholeBlock_take, ← hgiven] at hfront
      have hcount := congrArg (fun after => (Buffer.sizes after.2).length) hgiven
      rw [sizes_wholeBlock] at hcount
      rw [hfront, Nat.sub_self, Buffer.eq_replicate_nil_of_sizes (sizes_wholeBlock _ _ _ _ _)]
      exact Buffer.cut_eq (by simpa [Buffer.sizes] using hcount)

end Patch

namespace RenderSettings

variable {settings : RenderSettings} {size : Nat}

/-- The same settings but for the block size. -/
def withBlockSize (settings : RenderSettings) (size : Nat) : RenderSettings :=
  { settings with blockSize := size }

/-- The blocks cover all frames. -/
theorem frames_le (hsize : 0 < settings.blockSize) :
    settings.frames ≤ settings.blocks * settings.blockSize := by
  have hmax : max settings.blockSize 1 = settings.blockSize := Nat.max_eq_left hsize
  have hdivide := Nat.div_add_mod (settings.frames + settings.blockSize - 1) settings.blockSize
  have hrest := Nat.mod_lt (settings.frames + settings.blockSize - 1) hsize
  simp only [blocks, hmax]
  rw [Nat.mul_comm]
  omega

/-- Settings without a problem have a rate above zero, and no problem with another block size. -/
theorem of_problem?_eq_none (h : settings.problem? = none) (hsize : 0 < size) :
    0 < settings.sampleRate ∧ (settings.withBlockSize size).problem? = none := by
  unfold problem? at h
  split at h
  · cases h
  · next hseconds =>
    split at h
    · cases h
    · next hpositive =>
      have hrate : settings.sampleRate ≠ 0 := by
        intro hzero
        simp [hzero] at hpositive
      have hnonzero : ¬ (decide (settings.sampleRate = 0) || decide (size = 0)) = true := by
        simp only [Bool.or_eq_true, decide_eq_true_eq]
        omega
      refine ⟨Nat.pos_of_ne_zero hrate, ?_⟩
      rw [problem?, withBlockSize, if_neg hseconds, if_neg hnonzero]

end RenderSettings

namespace Patch

/-- A patch of boxes that have been built renders the same samples for all block sizes, one list of
samples for each output channel, with a sample for every frame. With each block size, how many blocks are
done is reported once for each block. -/
theorem render_regardless_of_block_size {patch : Patch} (hwired : patch.Wired)
    (hbuilt : ∀ box ∈ patch.boxes, box.Built) {settings : RenderSettings}
    (hvalid : settings.problem? = none) (hrate : settings.sampleRate < UInt32.size)
    (inputs : List (Buffer Sample)) :
    ∃ channels : List (Buffer Sample), channels.length = patch.channels.2 ∧
      (∀ channel ∈ channels, channel.length = settings.frames) ∧
      ∀ size, 0 < size →
        let chosen := settings.withBlockSize size
        let rendering := Rendering.loop Machine.processor chosen inputs
          (patch.start chosen.rate chosen.blockSize).1
        patch.render Machine.processor chosen inputs = .ok (rendering.patch.stop, channels) ∧
          rendering.collected = channels ∧
          rendering.reports =
            (List.range chosen.blocks).map fun done => (done + 1, chosen.blocks) := by
  have hsizes := sizes_wholeBlock patch.signalGraph patch.channels settings.frames
    (patch.stop.prepare settings.rate).boxes inputs
  refine ⟨(wholeBlock patch.signalGraph patch.channels settings.frames
    (patch.stop.prepare settings.rate).boxes inputs).2, ?_, fun channel hchannel => ?_,
    fun size hsize => ?_⟩
  · simpa [Buffer.sizes] using congrArg List.length hsizes
  · have hlength : channel.length ∈ List.replicate patch.channels.2 settings.frames :=
      hsizes ▸ List.mem_map_of_mem hchannel
    exact List.eq_of_mem_replicate hlength
  · obtain ⟨hpositive, hchosen⟩ := RenderSettings.of_problem?_eq_none hvalid hsize
    have hstartable : Chain.validSettings settings.rate size = true :=
      Chain.validSettings_of hsize (Single.isFinite_ofNat hpositive hrate)
        (Single.ofNat_pos hpositive hrate)
    obtain ⟨hplays, hplaysSize, hchannels, hboxes⟩ := plays_start hwired hbuilt hstartable
    have hcover : (settings.withBlockSize size).frames ≤
        (settings.withBlockSize size).blocks * (settings.withBlockSize size).blockSize :=
      RenderSettings.frames_le hsize
    have hsamples := hplays.renderBlocks_eq hwired.sound hplaysSize hcover inputs
    rw [hchannels, hboxes] at hsamples
    have hloop := Rendering.loop_eq Machine.processor (settings.withBlockSize size) inputs
      (patch.start settings.rate size).1
    refine ⟨?_, ?_, ?_⟩
    · rw [render, hchosen]
      have hpatch := congrArg (fun rendering => rendering.patch.stop) hloop
      exact congrArg Except.ok (Prod.ext hpatch.symm hsamples)
    · exact (congrArg Rendering.collected hloop).trans hsamples
    · exact congrArg Rendering.reports hloop

/-- A cosine on both output channels. -/
def tone : Patch :=
  { boxes := [
      { id := 0
        name := "osc~"
        text := "osc~ 441"
        inlets := [.both "frequency (Hz)", (Inlet.control "phase (0-1)").cold]
        outlets := [.audio "cosine"]
        sheet := []
        machine := .audio (.oscillator (.ofDouble 441.0) .start 44100.0) },
      { id := 1
        name := "dac~"
        text := "dac~"
        inlets := [.signal "output channel 1", .signal "output channel 2"]
        outlets := []
        sheet := []
        machine := .audio (.output [0, 1]) }]
    connections := [⟨0, 0, 1, 0, true⟩, ⟨0, 0, 1, 1, true⟩]
    nextId := 2 }

/-- A tenth of a second of it is the same in blocks of 64 as in blocks of 7. -/
theorem render_regardless_of_block_size_tone :
    ∃ last other channels,
      tone.render Machine.processor { seconds := 0.1, blockSize := 64 } [] = .ok (last, channels) ∧
      tone.render Machine.processor { seconds := 0.1, blockSize := 7 } [] = .ok (other, channels) ∧
      channels.length = 2 ∧ ∀ channel ∈ channels, channel.length = 4410 := by
  have hwired : tone.Wired := by
    refine ⟨by decide, by decide, fun connection hconnection => ?_, by decide⟩
    simp only [tone, List.mem_cons, List.not_mem_nil, or_false] at hconnection
    rcases hconnection with rfl | rfl <;>
      exact ⟨_, List.mem_cons_self, _, List.mem_cons_of_mem _ List.mem_cons_self, _, _, rfl, rfl,
        by decide, rfl, rfl, rfl, rfl⟩
  have hbuilt : ∀ box ∈ tone.boxes, box.Built := by
    intro box hbox
    simp only [tone, List.mem_cons, List.not_mem_nil, or_false] at hbox
    rcases hbox with rfl | rfl
    · exact ⟨.oscillator, ⟨"osc~", [.long 441], [], 0⟩, _, 0, rfl, rfl, rfl, rfl⟩
    · exact ⟨.output, ⟨"dac~", [], [], 1⟩, _, 0, rfl, rfl, rfl, rfl⟩
  have hframes : RenderSettings.frames { seconds := 0.1 } = 4410 := by decide +kernel
  obtain ⟨channels, hcount, hlength, hall⟩ := render_regardless_of_block_size hwired hbuilt
    (by decide +kernel : RenderSettings.problem? { seconds := 0.1 } = none) (by decide) []
  rw [hframes] at hlength
  exact ⟨_, _, channels, (hall 64 (by decide)).1, (hall 7 (by decide)).1, hcount, hlength⟩

end Patch

end Patchbay
