import Patchbay.Proofs.Box.Laws

/-!
# What stays of a patch

While a box is in its patch its attributes and its state may change, and nothing else. What is left is
its face, and the signal graph of a patch can be read off the faces and the wires. Signal processing, be
it started, stopped or under way, leaves all of these as they are.
-/

namespace Patchbay

/-- What stays of a box for as long as it is in its patch. -/
structure Face where
  id : Nat
  name : String
  text : String
  inlets : List Inlet
  outlets : List Outlet
  profile : Bool × Bool × List Bool
deriving DecidableEq

/-- The face of a box. -/
def Box.face (box : Box) : Face :=
  ⟨box.id, box.name, box.text, box.inlets, box.outlets, box.machine.profile⟩

namespace Face

/-- Decide whether a box of this face has to do with signals. -/
def hasSignals (face : Face) : Bool :=
  face.inlets.any Inlet.takesSignal || face.outlets.any Outlet.signal

/-- A box of this face as far as signal processing is concerned. -/
def node (face : Face) : SignalNode :=
  { id := face.id
    ready := face.profile.1
    inPlace := face.profile.2.1
    inlets := face.inlets.length
    outlets := face.outlets.map Outlet.signal }

end Face

/-- Getting ready leaves the profile as it is. -/
theorem Machine.profile_prepare (sampleRate : Float32) (machine : Machine) :
    (machine.prepare sampleRate).profile = machine.profile := by
  cases machine with
  | audio state => cases state <;> rfl
  | bench | control | wireless | timing => rfl

/-- Going back to the start leaves the profile as it is. -/
theorem Machine.profile_release (machine : Machine) : machine.release.profile = machine.profile := by
  cases machine with
  | audio state => cases state <;> rfl
  | bench | control | wireless | timing => rfl

/-- A machine that is ready for a sample rate is so after a block. -/
theorem Machine.prepare_perform {sampleRate : Float32} {machine : Machine}
    (h : machine.prepare sampleRate = machine) (inputs : Inputs Sample)
    (buffers : List (Buffer Sample)) :
    (machine.perform inputs buffers).1.prepare sampleRate = (machine.perform inputs buffers).1 := by
  cases machine with
  | audio state =>
    cases state with
    | oscillator frequency phase rate =>
      simp only [prepare, Audio.prepare, audio.injEq, Audio.oscillator.injEq, true_and] at h
      simp only [perform, Audio.perform, prepare, Audio.prepare, h]
    | constant | combine | input | output => rfl
  | bench state =>
    simp only [perform, Bench.perform]
    split <;> rfl
  | control | wireless | timing => rfl

/-- A machine that is ready for a sample rate is so after a block computed in place. -/
theorem Machine.prepare_performInPlace {sampleRate : Float32} {machine : Machine}
    (h : machine.prepare sampleRate = machine) (buffer : Buffer Sample) :
    (machine.performInPlace buffer).1.prepare sampleRate = (machine.performInPlace buffer).1 := by
  cases machine with
  | audio state =>
    cases state with
    | oscillator frequency phase rate => exact h
    | constant | combine | input | output => rfl
  | bench | control | wireless | timing => rfl

/-- A machine that has got ready for a sample rate stays as it is when it does so again. -/
theorem Machine.prepare_prepare (sampleRate : Float32) (machine : Machine) :
    (machine.prepare sampleRate).prepare sampleRate = machine.prepare sampleRate := by
  cases machine with
  | audio state => cases state <;> rfl
  | bench | control | wireless | timing => rfl

/-- What is kept by every box that computes is kept by a block. -/
theorem Chain.tick_keeps {σ S : Type} {processor : Processor σ S} (Kept : S → Bus σ → Prop)
    (hperform : ∀ boxes bus id inputs found, Kept boxes bus →
      Kept (processor.perform boxes id inputs found).1
        ((processor.perform boxes id inputs found).2.channels.foldl
          (fun bus channel => bus.addOutput processor.busMix channel.1 channel.2) bus))
    (hinPlace : ∀ boxes bus id buffer, Kept boxes bus →
      Kept (processor.performInPlace boxes id buffer).1 bus)
    (chain : Chain σ) {boxes : S} {bus : Bus σ} (h : Kept boxes (bus.clearOutputs processor.zero)) :
    Kept (chain.tick processor boxes bus).2.1 (chain.tick processor boxes bus).2.2 := by
  have hsteps : ∀ (steps : List Step) (position : Nat) (flow : Flow σ S),
      Kept flow.boxes flow.bus →
      Kept (performFrom processor chain.blockSize position steps flow).boxes
        (performFrom processor chain.blockSize position steps flow).bus := by
    intro steps
    induction steps with
    | nil => exact fun _ _ h => h
    | cons step rest ih =>
      intro position flow h
      refine ih (position + 1) _ ?_
      unfold performStep
      split
      · exact hinPlace _ _ _ _ h
      · exact hperform _ _ _ _ _ h
  exact hsteps chain.steps 0 _ h

/-- No box but the one that is found has a number. -/
theorem eq_of_find? {boxes : List Box} (hids : (boxes.map Box.id).Nodup) {id : Nat} {found : Box}
    (hfound : (boxes.find? fun box => box.id == id) = some found) {box : Box} (hbox : box ∈ boxes)
    (hid : box.id = id) : box = found := by
  have hfoundId : found.id = id := by simpa using List.find?_some hfound
  exact List.inj_on_of_nodup_map hids hbox (List.mem_of_find?_eq_some hfound)
    (hid.trans hfoundId.symm)

/-- A number in use is that of a box which is found by it. -/
theorem Patch.exists_box?_of_mem_ids {patch : Patch} {id : Nat} (h : id ∈ patch.ids) :
    ∃ box ∈ patch.boxes, patch.box? id = some box ∧ box.id = id := by
  obtain ⟨found, hfound, rfl⟩ := List.mem_map.mp h
  have hsome : (patch.boxes.find? fun box => box.id == found.id).isSome = true :=
    List.find?_isSome.mpr ⟨found, hfound, beq_self_eq_true _⟩
  obtain ⟨box, hbox⟩ := Option.isSome_iff_exists.mp hsome
  have hid : box.id = found.id := by simpa using List.find?_some hbox
  exact ⟨box, List.mem_of_find?_eq_some hbox, hbox, hid⟩

/-- The box of a number is the one that has it. -/
theorem Patch.box?_of_mem {patch : Patch} (hids : patch.ids.Nodup) {box : Box} (hbox : box ∈ patch.boxes) :
    patch.box? box.id = some box := by
  obtain ⟨found, -, hfound, -⟩ := exists_box?_of_mem_ids (List.mem_map_of_mem hbox)
  exact hfound.trans (congrArg some (eq_of_find? hids hfound hbox rfl).symm)

/-- Boxes look the same if the machine of one is exchanged for another with which it looks the same. -/
theorem map_exchange {α : Type} {view : Box → α} {boxes : List Box} (hids : (boxes.map Box.id).Nodup)
    {id : Nat} {found : Box} (hfound : (boxes.find? fun box => box.id == id) = some found)
    {machine : Machine} (hview : view { found with machine } = view found) :
    (boxes.map fun box => if box.id = id then { box with machine } else box).map view =
      boxes.map view := by
  rw [List.map_map]
  refine List.map_congr_left fun box hbox => ?_
  simp only [Function.comp_apply]
  split
  · next hid =>
    obtain rfl := eq_of_find? hids hfound hbox hid
    exact hview
  · rfl

/-- Boxes look the same after a block if each looks the same after it has computed. -/
theorem Chain.map_tick {α : Type} {view : Box → α}
    (hperform : ∀ (box : Box) (inputs : Inputs Sample) (buffers : List (Buffer Sample)),
      view { box with machine := (box.machine.perform inputs buffers).1 } = view box)
    (hinPlace : ∀ (box : Box) (buffer : Buffer Sample),
      view { box with machine := (box.machine.performInPlace buffer).1 } = view box)
    (chain : Chain Sample) {boxes : List Box} (hids : (boxes.map Box.id).Nodup) (bus : Bus Sample) :
    (chain.tick Machine.processor boxes bus).2.1.map view = boxes.map view := by
  -- That the numbers stay as well keeps the boxes apart on the way.
  let kept (later : List Box) : Prop :=
    later.map Box.id = boxes.map Box.id ∧ later.map view = boxes.map view
  have hexchange : ∀ {later id box machine}, kept later →
      (later.find? fun box => box.id == id) = some box → view { box with machine } = view box →
      kept (later.map fun box => if box.id = id then { box with machine } else box) := by
    rintro later id box machine ⟨hsame, hlook⟩ hbox hview
    have hlater : (later.map Box.id).Nodup := hsame ▸ hids
    refine ⟨(map_exchange hlater hbox ?_).trans hsame, (map_exchange hlater hbox hview).trans hlook⟩
    rfl
  refine (Chain.tick_keeps (fun later _ => kept later) ?_ ?_ chain ⟨rfl, rfl⟩).2
  · intro later _ id inputs buffers hkept
    simp only [Machine.processor]
    split
    · exact hkept
    · next box hbox => exact hexchange hkept hbox (hperform box inputs buffers)
  · intro later _ id buffer hkept
    simp only [Machine.processor]
    split
    · exact hkept
    · next box hbox => exact hexchange hkept hbox (hinPlace box buffer)

/-- All boxes that have to do with signals are ready for a sample rate. -/
def Prepared (sampleRate : Float32) (boxes : List Box) : Prop :=
  ∀ box ∈ boxes, box.hasSignals = true → box.machine.prepare sampleRate = box.machine

/-- Boxes stay ready if the machine of one is exchanged for another that is ready when it is. -/
theorem Prepared.exchange {sampleRate : Float32} {boxes : List Box} (h : Prepared sampleRate boxes)
    (hids : (boxes.map Box.id).Nodup) {id : Nat} {found : Box}
    (hfound : (boxes.find? fun box => box.id == id) = some found) {machine : Machine}
    (hready : found.machine.prepare sampleRate = found.machine →
      machine.prepare sampleRate = machine) :
    Prepared sampleRate
      (boxes.map fun box => if box.id = id then { box with machine } else box) := by
  intro changed hchanged hsignals
  obtain ⟨box, hbox, rfl⟩ := List.mem_map.mp hchanged
  by_cases hid : box.id = id
  · obtain rfl := eq_of_find? hids hfound hbox hid
    simp only [hid, if_true] at hsignals ⊢
    exact hready (h box hbox hsignals)
  · simp only [hid, if_false] at hsignals ⊢
    exact h box hbox hsignals

/-- The same boxes later on: their faces are the same, and they are ready for all sample rates that they
were ready for. -/
structure Steady (boxes later : List Box) : Prop where
  faces : later.map Box.face = boxes.map Box.face
  prepared : ∀ sampleRate, Prepared sampleRate boxes → Prepared sampleRate later

namespace Steady

variable {boxes later : List Box}

/-- The numbers of the boxes are the same. -/
theorem ids (h : Steady boxes later) : later.map Box.id = boxes.map Box.id := by
  have hids := congrArg (List.map Face.id) h.faces
  rw [List.map_map, List.map_map] at hids
  exact hids

/-- The machine of a box may be exchanged for another of the same profile that is ready when the box
is. -/
theorem exchange (h : Steady boxes later) (hids : (boxes.map Box.id).Nodup) {id : Nat} {found : Box}
    (hfound : (later.find? fun box => box.id == id) = some found) {machine : Machine}
    (hprofile : machine.profile = found.machine.profile)
    (hready : ∀ sampleRate, found.machine.prepare sampleRate = found.machine →
      machine.prepare sampleRate = machine) :
    Steady boxes (later.map fun box => if box.id = id then { box with machine } else box) := by
  rw [← h.ids] at hids
  have hface : { found with machine }.face = found.face := by simp only [Box.face, hprofile]
  exact ⟨(map_exchange hids hfound hface).trans h.faces, fun sampleRate hprepared =>
    (h.prepared sampleRate hprepared).exchange hids hfound (hready sampleRate)⟩

/-- After a block the boxes are the same. -/
theorem tick (chain : Chain Sample) (hids : (boxes.map Box.id).Nodup) (bus : Bus Sample) :
    Steady boxes (chain.tick Machine.processor boxes bus).2.1 := by
  refine Chain.tick_keeps (fun later _ => Steady boxes later) ?_ ?_ chain ⟨rfl, fun _ h => h⟩
  · intro later _ id inputs found h
    simp only [Machine.processor]
    split
    · exact h
    · next box hbox =>
      exact h.exchange hids hbox (Machine.profile_perform inputs found box.machine)
        fun _ hready => Machine.prepare_perform hready inputs found
  · intro later _ id buffer h
    simp only [Machine.processor]
    split
    · exact h
    · next box hbox =>
      exact h.exchange hids hbox (Machine.profile_performInPlace buffer box.machine)
        fun _ hready => Machine.prepare_performInPlace hready buffer

end Steady

namespace Patch

/-- The signal graph can be read off the faces and the wires. -/
theorem signalGraph_eq (patch : Patch) :
    patch.signalGraph =
      { nodes := ((patch.boxes.map Box.face).filter Face.hasSignals).map Face.node
        edges := patch.connections.filter Connection.signal } := by
  rw [List.filter_map, List.map_map]
  rfl

/-- Two patches have boxes of the same faces, joined by the same wires, and go on with the same
number. -/
structure SameWiring (patch later : Patch) : Prop where
  faces : later.boxes.map Box.face = patch.boxes.map Box.face
  connections : later.connections = patch.connections
  nextId : later.nextId = patch.nextId

namespace SameWiring

variable {patch later last : Patch}

/-- Every patch is like itself. -/
theorem refl (patch : Patch) : patch.SameWiring patch := ⟨rfl, rfl, rfl⟩

/-- What stays twice stays over both times. -/
theorem trans (h : patch.SameWiring later) (hlast : later.SameWiring last) :
    patch.SameWiring last :=
  ⟨hlast.faces.trans h.faces, hlast.connections.trans h.connections, hlast.nextId.trans h.nextId⟩

/-- The signal graph stays. -/
theorem signalGraph (h : patch.SameWiring later) : later.signalGraph = patch.signalGraph := by
  rw [signalGraph_eq, signalGraph_eq, h.faces, h.connections]

end SameWiring

/-- Boxes look the same when they get ready if each does. -/
theorem map_boxes_prepare {α : Type} {view : Box → α} {sampleRate : Float32}
    (hview : ∀ box : Box, view { box with machine := box.machine.prepare sampleRate } = view box)
    (patch : Patch) : (patch.prepare sampleRate).boxes.map view = patch.boxes.map view := by
  rw [prepare, List.map_map]
  refine List.map_congr_left fun box _ => ?_
  simp only [Function.comp_apply]
  split
  · exact hview box
  · rfl

/-- Boxes look the same when the patch is stopped if each does when it is released. -/
theorem map_boxes_stop {α : Type} {view : Box → α}
    (hview : ∀ box : Box, view { box with machine := box.machine.release } = view box)
    (patch : Patch) : patch.stop.boxes.map view = patch.boxes.map view := by
  have hrelease (order : List Nat) :
      (patch.boxes.map fun box =>
          if order.contains box.id then { box with machine := box.machine.release } else box).map view =
        patch.boxes.map view := by
    rw [List.map_map]
    refine List.map_congr_left fun box _ => ?_
    simp only [Function.comp_apply]
    split
    · exact hview box
    · rfl
  unfold stop
  split
  · exact hrelease _
  · rfl

/-- Stopping leaves the numbers of channels as they are. -/
theorem channels_stop (patch : Patch) : patch.stop.channels = patch.channels := by
  unfold stop
  split
  · exact Prod.ext rfl (List.length_map _)
  · rfl

/-- After it there is no signal processing. -/
theorem running_stop (patch : Patch) : patch.stop.engine.running = false := by
  unfold stop
  split
  · rfl
  · next hidle => exact Bool.not_eq_true _ ▸ hidle

/-- Boxes that get ready keep their faces. -/
theorem sameWiring_prepare (patch : Patch) (sampleRate : Float32) :
    patch.SameWiring (patch.prepare sampleRate) :=
  ⟨patch.map_boxes_prepare fun box => by simp only [Box.face, Machine.profile_prepare], rfl, rfl⟩

/-- Making the chain anew leaves the wiring as it is. -/
theorem sameWiring_rebuild (patch : Patch) : patch.SameWiring patch.rebuild.1 := by
  unfold rebuild
  split
  · have hprepare := patch.sameWiring_prepare patch.engine.sampleRate
    dsimp only
    split <;> exact ⟨hprepare.faces, hprepare.connections, hprepare.nextId⟩
  · exact .refl patch

/-- So does an edit that makes the chain anew only if it touched the signal part. -/
theorem sameWiring_rebuildIf (patch : Patch) (signal : Bool) :
    patch.SameWiring (patch.rebuildIf signal) := by
  unfold rebuildIf
  split
  · exact patch.sameWiring_rebuild
  · exact .refl patch

/-- Stopping leaves the wiring as it is. -/
theorem sameWiring_stop (patch : Patch) : patch.SameWiring patch.stop := by
  refine ⟨patch.map_boxes_stop fun box => by simp only [Box.face, Machine.profile_release], ?_, ?_⟩ <;>
    (unfold stop; split <;> rfl)

/-- Starting leaves the wiring as it is. -/
theorem sameWiring_start (patch : Patch) (sampleRate : Float32) (blockSize : Nat) :
    patch.SameWiring (patch.start sampleRate blockSize).1 := by
  unfold start
  split
  · have hstop := patch.sameWiring_stop
    refine SameWiring.trans ?_ (sameWiring_rebuild _)
    exact ⟨hstop.faces, hstop.connections, hstop.nextId⟩
  · exact .refl patch

/-- After a block the boxes are the same. -/
theorem steady_runBlock {patch : Patch} (hids : patch.ids.Nodup) :
    Steady patch.boxes (patch.runBlock Machine.processor).boxes := by
  unfold runBlock
  split
  · exact .tick _ hids _
  · exact ⟨rfl, fun _ h => h⟩

/-- A block leaves the wiring as it is. -/
theorem sameWiring_runBlock {patch : Patch} (hids : patch.ids.Nodup) :
    patch.SameWiring (patch.runBlock Machine.processor) := by
  refine ⟨(steady_runBlock hids).faces, ?_, ?_⟩ <;> (unfold runBlock; split <;> rfl)

end Patch

end Patchbay
