import Patchbay.Proofs.Patch.Change

/-!
# The chain is kept up

While a patch runs, its chain is the one that would be built of it now. An edit makes the chain anew
only if it touches the signal part, so what has to be shown is that any other edit leaves the signal
graph as it is: a box that has nothing to do with signals is at the end of no signal wire.
-/

namespace Patchbay

/-- All channels of a bus hold blocks of one size. -/
structure Bus.Sized {σ : Type} (bus : Bus σ) (blockSize : Nat) : Prop where
  inputs : bus.Fed blockSize
  outputs : ∀ channel ∈ bus.outputs, channel.length = blockSize

namespace Bus.Sized

variable {σ : Type} {bus : Bus σ} {blockSize : Nat}

/-- The channels of a silent bus have the size that is asked for. -/
theorem silent (zero : σ) (inputs outputs blockSize : Nat) :
    (Bus.silent zero inputs outputs blockSize).Sized blockSize where
  inputs channel hchannel := by
    rw [List.eq_of_mem_replicate hchannel, Buffer.constant, List.length_replicate]
  outputs channel hchannel := by
    rw [List.eq_of_mem_replicate hchannel, Buffer.constant, List.length_replicate]

/-- Silencing the outputs leaves all channels at their sizes. -/
theorem clearOutputs (h : bus.Sized blockSize) (zero : σ) :
    (bus.clearOutputs zero).Sized blockSize where
  inputs := h.inputs
  outputs channel hchannel := by
    obtain ⟨old, hold, rfl⟩ := List.mem_map.mp hchannel
    rw [Buffer.constant, List.length_replicate]
    exact h.outputs old hold

/-- Putting samples on the inputs leaves all channels at their sizes. -/
theorem setInputs (h : bus.Sized blockSize) (zero : σ) (samples : List (Buffer σ)) :
    (bus.setInputs zero samples).Sized blockSize where
  inputs channel hchannel := by
    obtain ⟨index, hindex, rfl⟩ := List.mem_mapIdx.mp hchannel
    have hold := h.inputs _ (List.getElem_mem hindex)
    split
    · rw [Buffer.length_fit, hold]
    · exact hold
  outputs := h.outputs

/-- Adding to an output leaves all channels at their sizes. -/
theorem addOutput (h : bus.Sized blockSize) (add : σ → σ → σ) (channel : Nat)
    (samples : Buffer σ) : (bus.addOutput add channel samples).Sized blockSize where
  inputs := h.inputs
  outputs output houtput := by
    obtain ⟨index, hindex⟩ := List.getElem?_of_mem houtput
    rw [Bus.addOutput, List.getElem?_modify, Option.map_eq_map, Option.map_eq_some_iff] at hindex
    obtain ⟨old, hold, rfl⟩ := hindex
    have hsize := h.outputs old (List.mem_of_getElem? hold)
    split
    · rw [Buffer.length_addInto, hsize]
    · exact hsize

/-- Computing a block leaves all channels at their sizes. -/
theorem tick {S : Type} {processor : Processor σ S} (h : bus.Sized blockSize) (chain : Chain σ)
    (boxes : S) : (chain.tick processor boxes bus).2.2.Sized blockSize := by
  refine Chain.tick_keeps (fun _ bus => bus.Sized blockSize) ?_ ?_ chain (h.clearOutputs _)
  · intro boxes bus id inputs found h
    have hfold : ∀ (channels : List (Nat × Buffer σ)) (bus : Bus σ), bus.Sized blockSize →
        (channels.foldl (fun bus channel =>
          bus.addOutput processor.busMix channel.1 channel.2) bus).Sized blockSize := by
      intro channels
      induction channels with
      | nil => exact fun _ h => h
      | cons channel rest ih => exact fun bus h => ih _ (h.addOutput _ _ _)
    exact hfold _ bus h
  · exact fun _ _ _ _ h => h

end Bus.Sized

/-- What holds of an engine whatever the patch looks like: without signal processing there is no chain,
and with it the settings can be used and the channels of the bus have the size of a block. -/
structure Engine.Sound (engine : Engine) : Prop where
  idle : engine.running = false → engine.chain? = none
  settings : engine.running = true →
    Chain.validSettings engine.sampleRate engine.blockSize = true
  sized : engine.running = true → engine.bus.Sized engine.blockSize

namespace Patch

variable {patch later : Patch}

/-- The chain is the one that would be built now, but for what its buffers hold, or there is none since
none can be built. -/
def InStep (patch : Patch) : Prop :=
  (∃ chain built, patch.engine.chain? = some chain ∧
      Chain.build Sample.zero patch.signalGraph patch.engine.sampleRate patch.engine.blockSize =
        .ok built ∧
      chain.steps = built.steps ∧ chain.blockSize = built.blockSize) ∨
    patch.engine.chain? = none ∧ ∀ built,
      Chain.build Sample.zero patch.signalGraph patch.engine.sampleRate patch.engine.blockSize ≠
        .ok built

/-- A patch is kept up: while it runs, its chain is in step with it, and its boxes are ready for the
sample rate. -/
structure Upkept (patch : Patch) : Prop where
  sound : patch.engine.Sound
  inStep : patch.engine.running = true → patch.InStep
  prepared : patch.engine.running = true → Prepared patch.engine.sampleRate patch.boxes

/-- Getting ready makes all boxes ready. -/
theorem prepared_prepare (patch : Patch) (sampleRate : Float32) :
    Prepared sampleRate (patch.prepare sampleRate).boxes := by
  intro prepared hprepared hsignals
  obtain ⟨box, -, rfl⟩ := List.mem_map.mp hprepared
  by_cases hbox : box.hasSignals = true
  · simp only [hbox, if_true]
    exact box.machine.prepare_prepare sampleRate
  · simp only [hbox] at hsignals
    exact absurd hsignals hbox

/-- A patch whose chain has just been made anew is kept up, whatever chain it had before. -/
theorem upkept_rebuild (hsound : patch.engine.Sound) : patch.rebuild.1.Upkept := by
  unfold rebuild
  split
  · next hrunning =>
    have hprepared := patch.prepared_prepare patch.engine.sampleRate
    dsimp only
    split
    · next chain hbuild =>
      refine ⟨⟨fun hidle => ?_, hsound.settings, hsound.sized⟩, fun _ => ?_, fun _ => hprepared⟩
      · exact absurd (hidle.symm.trans hrunning) (by decide)
      · exact Or.inl ⟨chain, chain, rfl, hbuild, rfl, rfl⟩
    · next error hbuild =>
      refine ⟨⟨fun _ => rfl, hsound.settings, hsound.sized⟩, fun _ => ?_, fun _ => hprepared⟩
      refine Or.inr ⟨rfl, fun built hbuilt => ?_⟩
      have hboth := hbuild.symm.trans hbuilt
      cases hboth
  · next hstopped => exact ⟨hsound, fun hrunning => absurd hrunning hstopped,
      fun hrunning => absurd hrunning hstopped⟩

/-- A chain stays in step as long as the signal graph and the engine stay as they are. -/
theorem Upkept.of_signalGraph (h : patch.Upkept) (hengine : later.engine = patch.engine)
    (hgraph : later.signalGraph = patch.signalGraph)
    (hboxes : ∀ box ∈ later.boxes, box.hasSignals = true → box ∈ patch.boxes) : later.Upkept where
  sound := hengine ▸ h.sound
  inStep := by
    rw [InStep, hengine, hgraph]
    exact h.inStep
  prepared := by
    rw [hengine]
    exact fun hrunning box hbox hsignals =>
      h.prepared hrunning box (hboxes box hbox hsignals) hsignals

/-- The boxes and wires of a patch have been edited, its chain left as it is. Either the edit touched the
signal part, or the signal graph and its boxes are as they were. -/
structure Reworked (patch edited : Patch) (signal : Bool) : Prop where
  engine : edited.engine = patch.engine
  signalGraph : signal = false → edited.signalGraph = patch.signalGraph
  boxes : signal = false → ∀ box ∈ edited.boxes, box.hasSignals = true → box ∈ patch.boxes

/-- After an edit a patch is kept up, if the chain is made anew when the edit touched the signal part. -/
theorem Upkept.rebuildIf {edited : Patch} {signal : Bool} (h : patch.Upkept)
    (hedit : patch.Reworked edited signal) : (edited.rebuildIf signal).Upkept := by
  cases signal with
  | true => exact upkept_rebuild (hedit.engine ▸ h.sound)
  | false => exact h.of_signalGraph hedit.engine (hedit.signalGraph rfl) (hedit.boxes rfl)

/-- In a patch that is wired well, a box at the end of a signal wire has to do with signals. -/
theorem Wired.hasSignals (h : patch.Wired) {wire : Connection} (hwire : wire ∈ patch.connections)
    (hsignal : wire.signal = true) {box : Box} (hbox : box ∈ patch.boxes)
    (htouches : wire.touches box.id = true) : box.hasSignals = true := by
  obtain ⟨source, hsource, target, htarget, output, input, hsourceId, htargetId, -, houtput, hinput,
    haccepts, hcarries⟩ := h.sits wire hwire
  have hout : output.signal = true := hcarries.symm.trans hsignal
  rw [Connection.touches, Bool.or_eq_true, beq_iff_eq, beq_iff_eq] at htouches
  rw [Box.hasSignals, Bool.or_eq_true]
  rcases htouches with hend | hend
  · obtain rfl := List.inj_on_of_nodup_map h.nodup hsource hbox (hsourceId.trans hend)
    exact Or.inr (List.any_eq_true.mpr ⟨output, List.mem_of_getElem? houtput, hout⟩)
  · obtain rfl := List.inj_on_of_nodup_map h.nodup htarget hbox (htargetId.trans hend)
    rw [Inlet.accepts, if_pos hout] at haccepts
    exact Or.inl (List.any_eq_true.mpr ⟨input, List.mem_of_getElem? hinput, haccepts⟩)

/-- Taking out a box that has nothing to do with signals leaves the signal graph as it is. -/
theorem Wired.signalGraph_without (h : patch.Wired) {box : Box} (hbox : box ∈ patch.boxes)
    (hsilent : box.hasSignals = false) : (patch.without box.id).signalGraph = patch.signalGraph := by
  have hnodes : (patch.without box.id).boxes.filter Box.hasSignals =
      patch.boxes.filter Box.hasSignals := by
    rw [Patch.without, List.filter_filter]
    refine List.filter_congr fun other hother => ?_
    by_cases hid : other.id = box.id
    · obtain rfl := List.inj_on_of_nodup_map h.nodup hother hbox hid
      simp [hsilent]
    · simp [hid]
  have hedges : (patch.without box.id).connections.filter Connection.signal =
      patch.connections.filter Connection.signal := by
    rw [Patch.without, List.filter_filter]
    refine List.filter_congr fun wire hwire => ?_
    cases hsignal : wire.signal with
    | false => simp
    | true =>
      have hfar : wire.touches box.id = false := by
        by_contra hnear
        have hsignals := h.hasSignals hwire hsignal hbox (by simpa using hnear)
        exact absurd (hsilent.symm.trans hsignals) (by decide)
      simp [hfar]
  rw [signalGraph, signalGraph, hnodes, hedges]

/-- Taking away a wire for messages leaves the signal graph as it is. -/
theorem signalGraph_withoutWire (patch : Patch) {source outlet target inlet : Nat}
    {wire : Connection}
    (hwire : (patch.connections.find? fun connection =>
      connection.joins source outlet target inlet) = some wire) (hsilent : wire.signal = false) :
    (patch.withoutWire source outlet target inlet).signalGraph = patch.signalGraph := by
  obtain ⟨hjoins, before, after, hsplit, hbefore⟩ := List.find?_eq_some_iff_append.mp hwire
  have hcut : (patch.withoutWire source outlet target inlet).connections = before ++ after := by
    have hnone : ∀ other ∈ before, ¬ other.joins source outlet target inlet = true := by
      simpa using hbefore
    rw [withoutWire, hsplit, List.eraseP_append_right _ hnone]
    simp only [List.eraseP_cons, hjoins, cond_true]
  simp only [signalGraph, hcut, hsplit, List.filter_append]
  rw [List.filter_cons_of_neg (by simp [hsilent])]
  rfl

/-- Putting in a box touches the signal part if the box has to do with signals. -/
theorem reworked_install (patch : Patch) (box : Box) :
    patch.Reworked { patch.reserve.1 with boxes := patch.boxes ++ [box] } box.hasSignals where
  engine := rfl
  signalGraph hsilent := by simp [signalGraph, Patch.reserve, List.filter_append, hsilent]
  boxes hsilent other hother hsignals := by
    rcases List.mem_append.mp hother with hold | hnew
    · exact hold
    · obtain rfl := List.mem_singleton.mp hnew
      exact absurd (hsilent.symm.trans hsignals) (by decide)

/-- So it is when a box is taken out. -/
theorem Wired.reworked_without (h : patch.Wired) {box : Box} (hbox : box ∈ patch.boxes) :
    patch.Reworked (patch.without box.id) box.hasSignals where
  engine := rfl
  signalGraph := h.signalGraph_without hbox
  boxes _ _ hother _ := List.mem_of_mem_filter hother

/-- Drawing a wire touches the signal part if the wire is one for signals. -/
theorem reworked_withWire (patch : Patch) (wire : Connection) :
    patch.Reworked (patch.withWire wire) wire.signal where
  engine := rfl
  signalGraph hsilent := by simp [signalGraph, withWire, List.filter_append, hsilent]
  boxes _ _ hother _ := hother

/-- So it is when a wire is taken away. -/
theorem reworked_withoutWire (patch : Patch) {source outlet target inlet : Nat} {wire : Connection}
    (hwire : (patch.connections.find? fun connection =>
      connection.joins source outlet target inlet) = some wire) :
    patch.Reworked (patch.withoutWire source outlet target inlet) wire.signal where
  engine := rfl
  signalGraph := patch.signalGraph_withoutWire hwire
  boxes _ _ hother _ := hother

/-- A block leaves a patch kept up that runs. -/
theorem Upkept.runBlock (h : patch.Upkept) (hids : patch.ids.Nodup)
    (hrunning : patch.engine.running = true) : (patch.runBlock Machine.processor).Upkept := by
  have hgraph := (sameWiring_runBlock hids).signalGraph
  have hprepared := (steady_runBlock hids).prepared _ (h.prepared hrunning)
  have hsized := h.sound.sized hrunning
  unfold Patch.runBlock at hgraph hprepared ⊢
  split at hgraph
  · next chain hchain =>
    simp only [hchain] at hprepared ⊢
    refine ⟨⟨fun hidle => ?_, h.sound.settings, fun _ => hsized.tick chain patch.boxes⟩, fun _ => ?_,
      fun _ => hprepared⟩
    · exact absurd (hidle.symm.trans hrunning) (by decide)
    · obtain ⟨current, built, hcurrent, hbuilt, hsteps, hsize⟩ | ⟨hnone, -⟩ := h.inStep hrunning
      · obtain rfl : chain = current := Option.some.inj (hchain.symm.trans hcurrent)
        refine Or.inl ⟨_, built, rfl, ?_, hsteps, hsize⟩
        rw [hgraph]
        exact hbuilt
      · cases hchain.symm.trans hnone
  · next hchain =>
    simp only [hchain] at hprepared ⊢
    exact ⟨⟨fun _ => rfl, h.sound.settings, fun _ => hsized.clearOutputs _⟩,
      fun _ => (h.inStep hrunning).elim (fun ⟨_, _, hsome, _⟩ => by cases hchain.symm.trans hsome)
        fun hnone => Or.inr ⟨rfl, hnone.2⟩, fun _ => hprepared⟩

/-- No change leaves behind a chain that is out of step. -/
theorem Change.upkept (h : patch.Change later) (hwired : patch.Wired) (hupkept : patch.Upkept) :
    later.Upkept := by
  -- Edits either make the chain anew, or they leave the signal graph as it is.
  cases h with
  | reserve => exact hupkept.of_signalGraph rfl rfl fun box hbox _ => hbox
  | install box hid => exact hupkept.rebuildIf (patch.reworked_install box)
  | remove id h =>
    obtain ⟨box, hbox, rfl⟩ := remove_eq_ok h
    obtain rfl : box.id = id := by simpa using List.find?_some hbox
    have hcut := hupkept.rebuildIf (hwired.reworked_without (List.mem_of_find?_eq_some hbox))
    exact hcut.of_signalGraph rfl rfl fun other hother _ => hother
  | clear =>
    have hemptied : (rebuildIf { patch with boxes := [], connections := [] } true).Upkept :=
      upkept_rebuild hupkept.sound
    exact hemptied.of_signalGraph rfl rfl fun other hother _ => hother
  | connect source outlet target inlet h =>
    obtain ⟨signal, -, rfl⟩ := connect_eq_ok h
    exact hupkept.rebuildIf (patch.reworked_withWire ⟨source, outlet, target, inlet, signal⟩)
  | disconnect source outlet target inlet h =>
    obtain ⟨wire, hwire, rfl⟩ := disconnect_eq_ok h
    exact hupkept.rebuildIf (patch.reworked_withoutWire hwire)
  | setChannels inputs outputs =>
    exact ⟨⟨hupkept.sound.idle, hupkept.sound.settings, fun _ => .silent _ _ _ _⟩, hupkept.inStep,
      hupkept.prepared⟩
  | start sampleRate blockSize =>
    unfold Patch.start
    split
    · next hvalid =>
      exact upkept_rebuild ⟨fun _ => rfl, fun _ => hvalid, fun _ => .silent _ _ _ _⟩
    · exact hupkept
  | stop =>
    unfold Patch.stop
    split
    · refine ⟨⟨fun _ => rfl, fun hrunning => ?_, fun hrunning => ?_⟩, fun hrunning => ?_,
        fun hrunning => ?_⟩ <;> cases hrunning
    · exact hupkept
  | tick =>
    unfold Patch.tick
    split
    · next hrunning => exact hupkept.runBlock hwired.nodup hrunning
    · exact hupkept
  | process inputs sizes =>
    unfold Patch.process
    split
    · next hrunning =>
      have hfed : Upkept { patch with
          engine := { patch.engine with
            bus := patch.engine.bus.setInputs Machine.processor.zero inputs } } :=
        ⟨⟨hupkept.sound.idle, hupkept.sound.settings,
          fun hrunning => (hupkept.sound.sized hrunning).setInputs _ _⟩, hupkept.inStep,
          hupkept.prepared⟩
      exact hfed.runBlock hwired.nodup hrunning
    · exact hupkept

/-- An empty patch is kept up. -/
theorem upkept_empty : Upkept {} where
  sound := ⟨fun _ => rfl, nofun, nofun⟩
  inStep := nofun
  prepared := nofun

/-- Changes one after the other leave a patch kept up. -/
theorem upkept_of_changes (hwired : patch.Wired) (hupkept : patch.Upkept)
    (h : Relation.ReflTransGen Change patch later) : later.Upkept := by
  induction h with
  | refl => exact hupkept
  | tail hbefore hchange ih => exact hchange.upkept (wired_of_changes hwired hbefore).1 ih

/-- The signal graph of a patch that is wired well is sound. -/
theorem Wired.sound (h : patch.Wired) : patch.signalGraph.Sound where
  nodup := by
    have hids : patch.signalGraph.nodes.map SignalNode.id =
        (patch.boxes.filter Box.hasSignals).map Box.id := by
      rw [signalGraph, List.map_map]
      rfl
    rw [hids]
    exact (List.filter_sublist.map Box.id).nodup h.nodup
  source edge hedge node hnode hid := by
    obtain ⟨box, hbox, rfl⟩ := List.mem_map.mp hnode
    obtain ⟨hwire, hsignal⟩ := List.mem_filter.mp hedge
    obtain ⟨source, hsource, -, -, output, -, hsourceId, -, -, houtput, -, -, hcarries⟩ :=
      h.sits edge hwire
    obtain rfl := List.inj_on_of_nodup_map h.nodup hsource (List.mem_of_mem_filter hbox)
      (hsourceId.trans hid.symm)
    simp [Box.node, houtput, ← hcarries, hsignal]
  target edge hedge node hnode hid := by
    obtain ⟨box, hbox, rfl⟩ := List.mem_map.mp hnode
    obtain ⟨-, -, target, htarget, -, input, -, htargetId, -, -, hinput, -, -⟩ :=
      h.sits edge (List.mem_filter.mp hedge).1
    obtain rfl := List.inj_on_of_nodup_map h.nodup htarget (List.mem_of_mem_filter hbox)
      (htargetId.trans hid.symm)
    exact (List.getElem?_eq_some_iff.mp hinput).1

end Patch

end Patchbay
