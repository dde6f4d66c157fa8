import Patchbay.Proofs.Patch.Playing

/-!
# Patches stay intact

All that holds of a patch at all times, whatever is done to it and whatever messages its boxes receive:
its wires are in order, its boxes have been built and keep to what is known of them, its chain is kept
up, and while it runs it plays its signal graph.
-/

namespace Patchbay

/-- A machine that is ready for a sample rate is so after a message. -/
theorem Machine.prepare_receive {sampleRate : Float32} {machine : Machine}
    (h : machine.prepare sampleRate = machine) (here : Surroundings) (inlet : Nat)
    (atoms : List Atom) :
    (machine.receive here inlet atoms).state.prepare sampleRate =
      (machine.receive here inlet atoms).state := by
  cases machine with
  | control | wireless | timing | bench => rfl
  | audio state =>
    simp only [receive, Reaction.map, Audio.receive]
    split
    · cases state with
      | constant | input | output => rfl
      | oscillator frequency phase rate =>
        simp only [prepare, Audio.prepare, audio.injEq, Audio.oscillator.injEq, true_and] at h
        dsimp only
        split <;> simp only [prepare, Audio.prepare, h]
      | combine operator scalar =>
        dsimp only
        split <;> rfl
    · exact h

/-- So it is after a tick of the clock. -/
theorem Machine.prepare_tick {sampleRate : Float32} {machine : Machine}
    (h : machine.prepare sampleRate = machine) (here : Surroundings) :
    (machine.tick here).state.prepare sampleRate = (machine.tick here).state := by
  cases machine with
  | timing => rfl
  | control | wireless | bench | audio => exact h

namespace Patch

variable {patch later edited : Patch} {graph : SignalGraph}

/-- What has the same wiring as another has it both ways. -/
theorem SameWiring.symm (h : patch.SameWiring later) : later.SameWiring patch :=
  ⟨h.faces.symm, h.connections.symm, h.nextId.symm⟩

/-- Boxes with the faces of boxes that have been built have been built too. -/
theorem built_of_faces {boxes others : List Box} (hfaces : others.map Box.face = boxes.map Box.face)
    (hbuilt : ∀ box ∈ boxes, box.Built) : ∀ box ∈ others, box.Built := by
  intro box hbox
  obtain ⟨old, hold, hface⟩ := exists_same_face hfaces.symm hbox
  exact (hbuilt old hold).of_face hface.symm

/-- Of the engine an edit changes the chain at most. -/
theorem engine_rebuildIf (patch : Patch) (signal : Bool) :
    (patch.rebuildIf signal).engine =
      { patch.engine with chain? := (patch.rebuildIf signal).engine.chain? } := by
  unfold rebuildIf rebuild
  split
  · split
    · dsimp only
      split <;> rfl
    · rfl
  · rfl

/-- A patch plays its signal graph as long as that and the engine stay, and its boxes keep to the graph. -/
theorem Plays.of_signalGraph (h : patch.Plays patch.signalGraph)
    (hengine : later.engine = patch.engine) (hgraph : later.signalGraph = patch.signalGraph)
    (hmirrors : later.signalGraph.Mirrors later.boxes) : later.Plays later.signalGraph where
  running := hengine ▸ h.running
  sized := hengine ▸ h.sized
  mirrors := hmirrors
  chain := by
    rw [hengine, hgraph]
    exact h.chain

/-- It plays its signal graph whatever samples are put on the input channels. -/
theorem Plays.setInputs (h : patch.Plays graph) (zero : Sample) (inputs : List (Buffer Sample)) :
    Plays graph { patch with
      engine := { patch.engine with bus := patch.engine.bus.setInputs zero inputs } } :=
  ⟨h.running, h.sized.setInputs _ _, h.mirrors, h.chain⟩

/-- So it does after a block. -/
theorem Plays.runBlock_signalGraph (h : patch.Plays patch.signalGraph) (hwired : patch.Wired) :
    (patch.runBlock Machine.processor).Plays (patch.runBlock Machine.processor).signalGraph := by
  rw [(sameWiring_runBlock hwired.nodup).signalGraph]
  exact (h.runBlock hwired.sound).1

/-- A running patch whose boxes have been built plays its signal graph when its chain is made anew. -/
theorem plays_rebuild_of_built (hwired : patch.Wired) (hbuilt : ∀ box ∈ patch.boxes, box.Built)
    (hsound : patch.engine.Sound) (hrunning : patch.engine.running = true) :
    patch.rebuild.1.Plays patch.rebuild.1.signalGraph := by
  have hprepare := patch.sameWiring_prepare patch.engine.sampleRate
  have hmirrors : patch.signalGraph.Mirrors (patch.prepare patch.engine.sampleRate).boxes := by
    rw [← hprepare.signalGraph]
    exact mirrors_of_built (hprepare.ids ▸ hwired.nodup) (built_of_faces hprepare.faces hbuilt)
  rw [patch.sameWiring_rebuild.signalGraph]
  exact (plays_rebuild hrunning (hsound.settings hrunning) (hsound.sized hrunning) hmirrors).1

/-- Taking out everything touches the signal part. -/
theorem reworked_clear (patch : Patch) :
    patch.Reworked { patch with boxes := [], connections := [] } true := ⟨rfl, nofun, nofun⟩

/-- What holds of a patch at all times. -/
structure Intact (patch : Patch) : Prop where
  wired : patch.Wired
  built : ∀ box ∈ patch.boxes, box.Built
  upkept : patch.Upkept
  plays : patch.engine.running = true → patch.Plays patch.signalGraph

namespace Intact

/-- An empty patch is intact. -/
theorem empty : Intact {} := ⟨wired_empty, nofun, upkept_empty, nofun⟩

/-- The boxes of an intact patch keep to its signal graph. -/
theorem mirrors (h : patch.Intact) : patch.signalGraph.Mirrors patch.boxes :=
  mirrors_of_built h.wired.nodup h.built

/-- A patch stays intact when its boxes change no more than messages and blocks change them. -/
theorem steady (h : patch.Intact) (hsteady : Steady patch.boxes later.boxes)
    (hconnections : later.connections = patch.connections) (hnextId : later.nextId = patch.nextId)
    (hengine : later.engine = patch.engine) : later.Intact := by
  have hsame : patch.SameWiring later := ⟨hsteady.faces, hconnections, hnextId⟩
  have hwired := hsame.wired h.wired
  have hbuilt := built_of_faces hsame.faces h.built
  refine ⟨hwired, hbuilt, ⟨hengine ▸ h.upkept.sound, ?_, ?_⟩, fun hrunning => ?_⟩
  · rw [InStep, hengine, hsame.signalGraph]
    exact h.upkept.inStep
  · rw [hengine]
    exact fun hrunning => hsteady.prepared _ (h.upkept.prepared hrunning)
  · rw [hengine] at hrunning
    exact (h.plays hrunning).of_signalGraph hengine hsame.signalGraph (mirrors_of_built hwired.nodup hbuilt)

/-- When its boxes and wires have been edited, the patch plays its signal graph again. -/
theorem plays_rebuildIf (h : patch.Intact) {signal : Bool} (hedit : patch.Reworked edited signal)
    (hwired : (edited.rebuildIf signal).Wired)
    (hbuilt : ∀ box ∈ (edited.rebuildIf signal).boxes, box.Built)
    (hrunning : (edited.rebuildIf signal).engine.running = true) :
    (edited.rebuildIf signal).Plays (edited.rebuildIf signal).signalGraph := by
  rw [engine_rebuildIf] at hrunning
  have hsame := (edited.sameWiring_rebuildIf signal).symm
  have hwiredEdited := hsame.wired hwired
  have hbuiltEdited : ∀ box ∈ edited.boxes, box.Built := built_of_faces hsame.faces hbuilt
  cases signal with
  | true =>
    exact plays_rebuild_of_built hwiredEdited hbuiltEdited (hedit.engine ▸ h.upkept.sound) hrunning
  | false =>
    change edited.engine.running = true at hrunning
    rw [hedit.engine] at hrunning
    exact (h.plays hrunning).of_signalGraph hedit.engine (hedit.signalGraph rfl)
      (mirrors_of_built hwiredEdited.nodup hbuiltEdited)

/-- A patch stays intact in every change that puts in no box but one that has been built. -/
theorem change (h : patch.Intact) (hchange : patch.Change later)
    (hbuilt : ∀ box ∈ later.boxes, box.Built) : later.Intact := by
  have hwired := hchange.wired h.wired
  refine ⟨hwired, hbuilt, hchange.upkept h.wired h.upkept, fun hrunning => ?_⟩
  cases hchange with
  | reserve => exact (h.plays hrunning).of_signalGraph rfl rfl h.mirrors
  | install box hid => exact h.plays_rebuildIf (patch.reworked_install box) hwired hbuilt hrunning
  | remove id hremove =>
    obtain ⟨box, hbox, rfl⟩ := remove_eq_ok hremove
    obtain rfl : box.id = id := by simpa using List.find?_some hbox
    have hplays := h.plays_rebuildIf (h.wired.reworked_without (List.mem_of_find?_eq_some hbox))
      ((sameWiring_retire _ _).symm.wired hwired) hbuilt hrunning
    exact hplays.of_signalGraph rfl rfl hplays.mirrors
  | clear =>
    have hplays := h.plays_rebuildIf patch.reworked_clear ((sameWiring_retire _ _).symm.wired hwired)
      hbuilt hrunning
    exact hplays.of_signalGraph rfl rfl hplays.mirrors
  | connect source outlet target inlet hconnect =>
    obtain ⟨signal, -, rfl⟩ := connect_eq_ok hconnect
    exact h.plays_rebuildIf (patch.reworked_withWire ⟨source, outlet, target, inlet, signal⟩) hwired
      hbuilt hrunning
  | disconnect source outlet target inlet hdisconnect =>
    obtain ⟨wire, hwire, rfl⟩ := disconnect_eq_ok hdisconnect
    exact h.plays_rebuildIf (patch.reworked_withoutWire hwire) hwired hbuilt hrunning
  | setChannels inputs outputs =>
    have hplays := h.plays hrunning
    exact ⟨hplays.running, .silent _ _ _ _, hplays.mirrors, hplays.chain⟩
  | start sampleRate blockSize =>
    by_cases hvalid : Chain.validSettings sampleRate blockSize = true
    · rw [(patch.sameWiring_start sampleRate blockSize).signalGraph]
      exact (plays_start h.wired h.built hvalid).1
    · simp only [Patch.start, hvalid] at hrunning ⊢
      exact h.plays hrunning
  | stop =>
    unfold Patch.stop at hrunning ⊢
    split at hrunning
    · cases hrunning
    · next hidle => exact absurd hrunning hidle
  | tick =>
    unfold Patch.tick at hrunning ⊢
    split
    · next hplaying => exact (h.plays hplaying).runBlock_signalGraph h.wired
    · next hidle =>
      simp only [hidle] at hrunning
      exact absurd hrunning hidle
  | process inputs sizes =>
    unfold Patch.process at hrunning ⊢
    split
    · next hplaying =>
      have hfed : Plays patch.signalGraph { patch with
          engine := { patch.engine with
            bus := patch.engine.bus.setInputs Machine.processor.zero inputs } } :=
        (h.plays hplaying).setInputs _ inputs
      exact hfed.runBlock_signalGraph ⟨h.wired.ascending, h.wired.given, h.wired.sits, h.wired.single⟩
    · next hidle =>
      simp only [hidle] at hrunning
      exact absurd hrunning hidle

/-- So it does in every change that gives out no number. -/
theorem change_of_nextId (h : patch.Intact) (hchange : patch.Change later)
    (hsame : later.nextId = patch.nextId) : later.Intact := by
  refine h.change hchange fun box hbox => ?_
  have hgiven := (hchange.wired h.wired).given box.id (List.mem_map_of_mem hbox)
  obtain ⟨old, hold, hface⟩ := (hchange.continues h.wired.nodup).boxes box hbox (hsame ▸ hgiven)
  exact (h.built old hold).of_face hface.symm

/-- A number may be given out. -/
theorem reserve (h : patch.Intact) : patch.reserve.1.Intact := h.change (.reserve patch) h.built

/-- A box that has been built may be put in under that number. -/
theorem install (h : patch.Intact) {box : Box} (hid : box.id = patch.nextId) (hbuilt : box.Built) :
    (patch.reserve.1.install box).Intact := by
  refine h.change (.install patch box hid) (built_of_faces (sameWiring_rebuildIf _ _).faces ?_)
  exact List.forall_mem_append.mpr ⟨h.built, List.forall_mem_singleton.mpr hbuilt⟩

/-- A box may react to a message or to a tick of the clock. A box that was taken out may do so too. -/
theorem updateBox (h : patch.Intact) {id : Nat} {box : Box} (hbox : patch.boxOrRetired? id = some box)
    {machine : Machine} (hprofile : machine.profile = box.machine.profile)
    (hready : ∀ sampleRate, box.machine.prepare sampleRate = box.machine →
      machine.prepare sampleRate = machine) (sheet : Sheet) :
    (patch.updateBox id fun box => { box with machine, sheet }).Intact := by
  -- A box in the patch goes before one of its number that was taken out.
  have hfound : ∀ other ∈ patch.boxes, other.id = id → other = box := by
    intro other hother hid
    obtain ⟨found, hfound, hbox?, hfoundId⟩ :=
      exists_box?_of_mem_ids (List.mem_map_of_mem (f := Box.id) hother)
    rw [hid] at hbox? hfoundId
    simp only [boxOrRetired?, hbox?, Option.orElse_some, Option.some.injEq] at hbox
    exact hbox ▸ List.inj_on_of_nodup_map h.wired.nodup hother hfound (hid.trans hfoundId.symm)
  refine h.steady ⟨?_, fun sampleRate hprepared changed hchanged => ?_⟩ rfl rfl rfl
  · rw [Patch.updateBox, List.map_map]
    refine List.map_congr_left fun other hother => ?_
    simp only [Function.comp_apply]
    split
    · next hid => simp only [Box.face, hprofile, hfound other hother hid]
    · rfl
  · obtain ⟨other, hother, rfl⟩ := List.mem_map.mp hchanged
    split
    · next hid =>
      obtain rfl := hfound other hother hid
      exact fun hsignals => hready sampleRate (hprepared other hother hsignals)
    · exact hprepared other hother

end Intact

end Patch

end Patchbay
