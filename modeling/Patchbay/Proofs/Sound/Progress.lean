import Patchbay.Proofs.Patch.Playing
import Patchbay.Sound.Rendering

/-!
# Rendering that reports how far it is

Rendering as a loop over the numbers of the blocks: each pass computes one block, appends what has been
computed to the samples collected so far, and reports how many blocks are done. It renders what rendering
the first block and then the others does.
-/

namespace Patchbay

/-- Rendering under way: the patch, the samples collected for each output channel, and the reports of how
many blocks are done and how many there are. -/
structure Rendering where
  patch : Patch
  collected : List (Buffer Sample)
  reports : List (Nat × Nat)

namespace Rendering

variable (processor : Processor Sample (List Box)) (settings : RenderSettings)
  (inputs : List (Buffer Sample))

/-- One pass of the loop, which renders the block behind those that are done. -/
def pass (rendering : Rendering) (done : Nat) : Rendering :=
  let start := done * settings.blockSize
  let size := min settings.blockSize (settings.frames - start)
  let fed := (List.range rendering.patch.channels.1).map fun channel =>
    ((inputs[channel]?.getD []).drop start).take size
  let played := rendering.patch.process processor fed
    (List.replicate rendering.patch.channels.2 settings.blockSize)
  { patch := played.1
    collected := List.zipWith (fun samples block => samples ++ block.take size)
      rendering.collected played.2.2
    reports := rendering.reports ++ [(done + 1, settings.blocks)] }

/-- The loop over all blocks, on a patch that has been started. -/
def loop (started : Patch) : Rendering :=
  (List.range settings.blocks).foldl (pass processor settings inputs)
    ⟨started, List.replicate started.channels.2 [], []⟩

end Rendering

/-- A block leaves the bus with as many channels as before. -/
theorem Patch.channels_process (processor : Processor Sample (List Box)) (patch : Patch)
    (inputs : List (Buffer Sample)) (sizes : List Nat) :
    (patch.process processor inputs sizes).1.channels = patch.channels := by
  have hadded : ∀ (channels : List (Nat × Buffer Sample)) (bus : Bus Sample),
      (channels.foldl (fun bus channel => bus.addOutput processor.busMix channel.1 channel.2)
        bus).outputs.length = bus.outputs.length := by
    intro channels bus
    simpa [Buffer.sizes] using
      congrArg List.length (Dataflow.sizes_foldl_addOutput processor.busMix channels bus)
  have hrun : ∀ fed : Patch, (fed.runBlock processor).channels = fed.channels := by
    intro fed
    unfold runBlock
    split
    · next chain hchain =>
      refine chain.tick_keeps (fun _ bus => (bus.inputs.length, bus.outputs.length) = fed.channels)
        (fun _ bus _ _ _ h => ?_) (fun _ _ _ _ h => h) ?_
      · rw [Chain.inputs_foldl_addOutput, hadded]
        exact h
      · exact Prod.ext rfl (List.length_map _)
    · exact Prod.ext rfl (List.length_map _)
  unfold process
  split
  · rw [hrun]
    exact Prod.ext List.length_mapIdx rfl
  · rfl

/-- A block is given out to every buffer. -/
theorem Patch.length_process (processor : Processor Sample (List Box)) (patch : Patch)
    (inputs : List (Buffer Sample)) (sizes : List Nat) :
    (patch.process processor inputs sizes).2.2.length = sizes.length := by
  unfold process
  split
  · rw [List.length_map, List.length_zipIdx]
  · exact List.length_map _

/-- Rendering gives samples for every output channel. -/
theorem Patch.length_renderBlocks (processor : Processor Sample (List Box)) (blockSize blocks
    frames : Nat) (inputs : List (Buffer Sample)) (patch : Patch) :
    (patch.renderBlocks processor blockSize blocks frames inputs).2.length = patch.channels.2 := by
  induction blocks generalizing frames inputs patch with
  | zero => exact List.length_replicate
  | succ blocks ih =>
    simp only [renderBlocks, List.length_zipWith, length_process, List.length_replicate, ih,
      channels_process, Nat.min_self]

/-- Nothing is appended to samples. -/
theorem Buffer.zipWith_append_nil {σ : Type} {buffers : List (Buffer σ)} {channels : Nat}
    (h : buffers.length = channels) :
    List.zipWith (· ++ ·) buffers (List.replicate channels []) = buffers := by
  rw [← h, ← List.map_const', List.zipWith_map_right, List.zipWith_self]
  exact (List.map_congr_left fun samples _ => List.append_nil samples).trans (List.map_id _)

/-- Samples are appended to nothing. -/
theorem Buffer.zipWith_nil_append {σ : Type} {buffers : List (Buffer σ)} {channels : Nat}
    (h : buffers.length = channels) :
    List.zipWith (· ++ ·) (List.replicate channels []) buffers = buffers := by
  rw [← h, ← List.map_const', List.zipWith_map_left, List.zipWith_self]
  exact (List.map_congr_left fun samples _ => List.nil_append samples).trans (List.map_id _)

/-- It makes no difference in which order samples are appended. -/
theorem Buffer.zipWith_append {σ : Type} (cut : Buffer σ → Buffer σ)
    (collected block later : List (Buffer σ)) :
    List.zipWith (· ++ ·) (List.zipWith (fun samples given => samples ++ cut given) collected block)
        later =
      List.zipWith (· ++ ·) collected
        (List.zipWith (fun given rest => cut given ++ rest) block later) := by
  induction collected generalizing block later with
  | nil => rfl
  | cons samples collected ih =>
    cases block with
    | nil => rfl
    | cons given block =>
      cases later with
      | nil => rfl
      | cons rest later => simp only [List.zipWith_cons_cons, List.append_assoc, ih]

namespace Rendering

variable (processor : Processor Sample (List Box)) (settings : RenderSettings)
  (inputs : List (Buffer Sample))

/-- The passes for blocks one after the other collect what rendering these blocks does, and report each. -/
theorem foldl_pass (blocks done : Nat) (rendering : Rendering)
    (hchannels : rendering.collected.length = rendering.patch.channels.2) :
    (List.range' done blocks).foldl (pass processor settings inputs) rendering =
      let rendered := rendering.patch.renderBlocks processor settings.blockSize blocks
        (settings.frames - done * settings.blockSize)
        (inputs.map (List.drop (done * settings.blockSize)))
      { patch := rendered.1
        collected := List.zipWith (· ++ ·) rendering.collected rendered.2
        reports := rendering.reports ++
          (List.range' done blocks).map fun done => (done + 1, settings.blocks) } := by
  induction blocks generalizing done rendering with
  | zero =>
    simp only [List.range'_zero, List.foldl_nil, Patch.renderBlocks, List.map_nil, List.append_nil,
      Buffer.zipWith_append_nil hchannels]
  | succ blocks ih =>
    have hframes : settings.frames - (done + 1) * settings.blockSize =
        settings.frames - done * settings.blockSize -
          min settings.blockSize (settings.frames - done * settings.blockSize) := by
      rw [Nat.succ_mul]
      omega
    have hinputs : inputs.map (List.drop ((done + 1) * settings.blockSize)) =
        (inputs.map (List.drop (done * settings.blockSize))).map (List.drop settings.blockSize) := by
      rw [List.map_map]
      refine List.map_congr_left fun input _ => ?_
      rw [Function.comp_apply, List.drop_drop, Nat.succ_mul]
    have hfed : ∀ channel : Nat, ((inputs.map (List.drop (done * settings.blockSize)))[channel]?).getD [] =
        (inputs[channel]?.getD []).drop (done * settings.blockSize) := by
      intro channel
      rw [List.getElem?_map]
      cases inputs[channel]? with
      | none => exact List.drop_nil.symm
      | some input => rfl
    rw [List.range'_succ, List.foldl_cons, ih]
    · simp only [Patch.renderBlocks, hfed, ← hframes, hinputs, pass, Buffer.zipWith_append,
        List.map_cons, List.append_assoc, List.cons_append, List.nil_append]
    · simp only [pass, Patch.channels_process, List.length_zipWith, Patch.length_process,
        List.length_replicate, hchannels, Nat.min_self]

/-- The loop renders what rendering the first block and then the others does, and reports each block
once. -/
theorem loop_eq (started : Patch) :
    loop processor settings inputs started =
      let rendered := started.renderBlocks processor settings.blockSize settings.blocks
        settings.frames inputs
      ⟨rendered.1, rendered.2, settings.progress⟩ := by
  have hdrop : inputs.map (List.drop (0 * settings.blockSize)) = inputs := by
    rw [Nat.zero_mul]
    exact List.map_id inputs
  rw [loop, List.range_eq_range', foldl_pass processor settings inputs _ _ _ List.length_replicate,
    hdrop, Nat.zero_mul, Nat.sub_zero]
  have hcount := Patch.length_renderBlocks processor settings.blockSize settings.blocks
    settings.frames inputs started
  simp only [Buffer.zipWith_nil_append hcount, List.nil_append, ← List.range_eq_range']
  rfl

end Rendering

end Patchbay
