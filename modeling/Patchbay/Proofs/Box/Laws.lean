import Patchbay.Proofs.Box.Blocks
import Patchbay.Proofs.Signal.Sweep
import Patchbay.Studio.Editing

/-!
# The boxes of a patch keep to the laws

The states of all boxes are one value, in which a box is found by its number. As long as each box that
takes part is found there with the profile that the graph knows of it, all that is asked of boxes for
working in place to make no difference is true of them.
-/

namespace Patchbay

/-- Boxes are found by their numbers after the machine of one has been exchanged. -/
theorem find?_exchange (boxes : List Box) (id : Nat) (machine : Machine) (wanted : Nat) :
    (boxes.map fun box => if box.id = id then { box with machine } else box).find?
        (fun box => box.id == wanted) =
      (boxes.find? fun box => box.id == wanted).map fun box =>
        if box.id = id then { box with machine } else box := by
  rw [List.find?_map]
  congr 2
  funext box
  simp only [Function.comp_apply]
  split <;> rfl

/-- Boxes leave their buffers at their sizes. -/
theorem Machine.processor_keepsSizes : Machine.processor.KeepsSizes where
  perform boxes id inputs buffers := by
    simp only [processor]
    split
    · rfl
    · exact sizes_perform inputs buffers _
  performInPlace boxes id buffer := by
    simp only [processor]
    split
    · rfl
    · exact length_performInPlace buffer _

/-- Each box that takes part is found among the boxes, with the profile that the graph knows of it. -/
def SignalGraph.Mirrors (graph : SignalGraph) (boxes : List Box) : Prop :=
  ∀ node ∈ graph.participants, ∃ box, (boxes.find? fun box => box.id == node.id) = some box ∧
    box.machine.profile = (true, node.inPlace, node.outlets)

namespace SignalGraph.Mirrors

variable {graph : SignalGraph} {boxes : List Box}

/-- A machine may be exchanged for another of the same profile. -/
theorem exchange (h : graph.Mirrors boxes) {id : Nat} {found : Box}
    (hfound : (boxes.find? fun box => box.id == id) = some found) {machine : Machine}
    (hprofile : machine.profile = found.machine.profile) :
    graph.Mirrors (boxes.map fun box => if box.id = id then { box with machine } else box) := by
  intro node hnode
  obtain ⟨box, hbox, hknown⟩ := h node hnode
  rw [find?_exchange, hbox, Option.map_some]
  refine ⟨_, rfl, ?_⟩
  split
  · next hid =>
    have hnodeId : box.id = node.id := by simpa using List.find?_some hbox
    rw [← hnodeId, hid, hfound, Option.some.injEq] at hbox
    rw [hprofile, hbox]
    exact hknown
  · exact hknown

/-- The boxes mirror the graph after one of them has computed a block. -/
theorem perform (h : graph.Mirrors boxes) (id : Nat) (inputs : Inputs Sample)
    (buffers : List (Buffer Sample)) :
    graph.Mirrors (Machine.processor.perform boxes id inputs buffers).1 := by
  simp only [Machine.processor]
  split
  · exact h
  · next box hbox => exact h.exchange hbox (Machine.profile_perform inputs buffers box.machine)

/-- The boxes mirror the graph after one of them has computed a block in place. -/
theorem performInPlace (h : graph.Mirrors boxes) (id : Nat) (buffer : Buffer Sample) :
    graph.Mirrors (Machine.processor.performInPlace boxes id buffer).1 := by
  simp only [Machine.processor]
  split
  · exact h
  · next box hbox => exact h.exchange hbox (Machine.profile_performInPlace buffer box.machine)

end SignalGraph.Mirrors

/-- Boxes that mirror a graph do the same whatever they find at their outlets. -/
theorem Machine.processor_oblivious {graph : SignalGraph} (blockSize : Nat) {node : SignalNode}
    (hnode : node ∈ graph.participants) : processor.Oblivious blockSize graph.Mirrors node where
  perform_eq boxes inputs found other hgood hinputs hfound hother := by
    obtain ⟨box, hbox, hprofile⟩ := hgood node hnode
    obtain ⟨hready, -, houtlets⟩ : box.machine.isReady = true ∧ _ ∧
        box.machine.signals = node.outlets := by
      simpa [Machine.profile] using hprofile
    have hequal := Machine.perform_eq_of_sizes hinputs hready
      (hfound.trans (by rw [houtlets]; rfl)) (hother.trans (by rw [houtlets]; rfl))
    simp only [Machine.processor, hbox, hequal]
  perform_good boxes inputs found hgood := hgood.perform node.id inputs found

/-- Boxes that mirror a graph keep to the laws under which they can share buffers. -/
theorem Chain.Plays.sharesBuffers {σ : Type} {graph : SignalGraph} {chain : Chain σ}
    (h : chain.Plays graph) (hsound : graph.Sound) (blockSize : Nat) :
    Machine.processor.SharesBuffers blockSize graph.Mirrors graph chain.inPlaceBoxes where
  perform_good node _ boxes inputs found hgood := hgood.perform node.id inputs found
  performInPlace_good node _ boxes signal hgood := hgood.performInPlace node.id signal
  inPlace node hnode hmem := by
    intro boxes signal channels found hgood hsignal _ hfound
    obtain ⟨box, hbox, hprofile⟩ := hgood node hnode
    obtain ⟨-, hable, houtlets⟩ : _ ∧ box.machine.worksInPlace = node.inPlace ∧
        box.machine.signals = node.outlets := by
      simpa [Machine.profile] using hprofile
    have hscheduled := (SignalGraph.schedule_perm hsound.nodup h.complete).mem_iff.mpr hnode
    obtain ⟨edge, hedge⟩ := (h.mem_inPlaceBoxes_iff hsound hscheduled).mp hmem
    obtain ⟨others, hfirst, hsilent⟩ := hedge.outlets_eq
    have hequal := Machine.perform_eq_performInPlace (hable.trans hedge.able)
      (houtlets.trans hfirst) hsilent hsignal (node.inlets - 1) channels
      (hfound.trans (by rw [houtlets]; rfl))
    simp only [Machine.processor, hbox, hequal]
  overwrites _ _ _ _ hnode _ := fun boxes inputs found buffer hgood hinputs hfound hset =>
    (Machine.processor_oblivious blockSize hnode).perform_eq boxes inputs (found.set _ buffer) found
      hgood hinputs hset hfound

/-- What a computation gives after a change was given before it. -/
theorem exists_of_map_eq_ok {ε A B : Type} {f : A → B} {computed : Except ε A} {result : B}
    (h : computed.map f = .ok result) : ∃ before, computed = .ok before ∧ f before = result := by
  cases computed with
  | error error => cases h
  | ok before => exact ⟨before, rfl, Except.ok.inj h⟩

/-- Every box that takes part in signal processing is made with signal outlets just where its machine
writes signals. -/
theorem Model.profile_of_plan {model : Model} {site : Site} {planned : Plan Machine}
    (hplan : model.plan site = .ok planned) (service : Nat)
    (hready : (planned.state service).isReady = true) :
    (planned.state service).profile =
      (true, (planned.state service).worksInPlace, planned.outlets.map Outlet.signal) := by
  suffices hsignals : (planned.state service).signals = planned.outlets.map Outlet.signal by
    rw [Machine.profile, hready, hsignals]
  cases model with
  | constant | oscillator | timesSignal | plusSignal | twin | late =>
    obtain rfl := Except.ok.inj hplan
    rfl
  | plus | times | print | pass | delay | metro | idle | agent | panel =>
    obtain rfl := Except.ok.inj hplan
    cases hready
  | speaker | hearer =>
    obtain ⟨before, hbefore, rfl⟩ := exists_of_map_eq_ok hplan
    cases hready
  | input =>
    obtain ⟨before, hbefore, rfl⟩ := exists_of_map_eq_ok hplan
    obtain ⟨channels, -, rfl⟩ := exists_of_map_eq_ok hbefore
    simp only [Plan.map, List.map_map]
    rfl
  | output =>
    obtain ⟨before, hbefore, rfl⟩ := exists_of_map_eq_ok hplan
    obtain ⟨channels, -, rfl⟩ := exists_of_map_eq_ok hbefore
    rfl

/-- A chain refines the dataflow of the graph that it was built from. After any number of blocks, each
further block is one of the dataflow, with the boxes in the order of the chain. Working in place makes no
difference: the chain of the graph with no box in place leaves the same on the bus, block after block,
for all boxes that keep to the laws. The boxes of a patch do, as all boxes are made with the profile that
the graph has of them. -/
theorem Chain.refines_dataflow {σ S : Type} {processor : Processor σ S}
    (hkeeps : processor.KeepsSizes) {zero : σ} {graph : SignalGraph} (hsound : graph.Sound)
    {sampleRate : Float32} {blockSize : Nat} {chain : Chain σ}
    (hbuild : build zero graph sampleRate blockSize = .ok chain) :
    (∀ (interludes : List (Interlude σ S)) (boxes : S) (bus : Bus σ) (boxesNow : S)
        (busNow : Bus σ), ∃ order : List SignalNode, order.map SignalNode.id = chain.order ∧
      Dataflow.Block processor blockSize graph order boxesNow busNow
        ((play processor interludes chain boxes bus).1.tick processor boxesNow busNow).2) ∧
    (∃ apart, build zero graph.apart sampleRate blockSize = .ok apart ∧ apart.inPlaceBoxes = [] ∧
      ∀ good, processor.SharesBuffers blockSize good graph chain.inPlaceBoxes →
        ∀ interludes : List (Interlude σ S),
          (∀ interlude ∈ interludes, ∀ boxes bus, good boxes → bus.Fed blockSize →
            good (interlude boxes bus).1 ∧ (interlude boxes bus).2.Fed blockSize) →
          ∀ boxes bus, good boxes → bus.Fed blockSize →
            (play processor interludes chain boxes bus).2 =
              (play processor interludes apart boxes bus).2) ∧
    Machine.processor.KeepsSizes ∧
    Machine.processor.SharesBuffers blockSize graph.Mirrors graph chain.inPlaceBoxes ∧
    ∀ (model : Model) (site : Site) (planned : Plan Machine), model.plan site = .ok planned →
      ∀ service, (planned.state service).isReady = true →
        (planned.state service).profile =
          (true, (planned.state service).worksInPlace, planned.outlets.map Outlet.signal) := by
  have hvalid := validSettings_of_build hbuild
  have hplays := plays_of_build hvalid hbuild
  have hsize : chain.blockSize = blockSize := by
    obtain ⟨-, rfl⟩ := (build_eq_ok_iff zero hvalid chain).mp hbuild
    rfl
  refine ⟨?_, ?_, Machine.processor_keepsSizes, hplays.sharesBuffers hsound blockSize,
    fun _ _ _ hplan => Model.profile_of_plan hplan⟩
  · intro interludes boxes bus boxesNow busNow
    obtain ⟨hlater, hlaterSize⟩ := hplays.play hkeeps interludes boxes bus
    refine ⟨graph.schedule, hplays.map_id_schedule, ?_⟩
    rw [← hsize, ← hlaterSize]
    exact hlater.block hsound hkeeps boxesNow busNow
  · obtain ⟨apart, hbuildApart, hbeside⟩ := beside_of_build hvalid hbuild
    refine ⟨apart, hbuildApart, hbeside.separate.inPlaceBoxes_apart, ?_⟩
    intro good hshares interludes hinterludes boxes bus hgood hbus
    rw [← hsize] at hshares hinterludes hbus
    exact hbeside.play hsound hkeeps hshares hinterludes hgood hbus

/-- A constant signal, multiplied by two boxes in a row, and put on two output channels. -/
def Patch.cascade : Patch :=
  { boxes := [
      ⟨0, "sig~", "sig~ 1", [.control "value"], [.audio "signal"], [], .audio (.constant .one)⟩,
      ⟨1, "*~", "*~ 1", [.signal "left", .both "right"], [.audio "result"], [],
        .audio (.combine .multiply .one)⟩,
      ⟨2, "*~", "*~ 1", [.signal "left", .both "right"], [.audio "result"], [],
        .audio (.combine .multiply .one)⟩,
      ⟨3, "dac~", "dac~", [.signal "first", .signal "second"], [], [], .audio (.output [0, 1])⟩]
    connections := [⟨0, 0, 1, 0, true⟩, ⟨1, 0, 2, 0, true⟩, ⟨2, 0, 3, 0, true⟩, ⟨2, 0, 3, 1, true⟩]
    nextId := 4 }

/-- The two products are computed in place, and nothing changes on the bus if they are not. -/
theorem Chain.refines_dataflow_cascade :
    ∃ chain apart, build Sample.zero Patch.cascade.signalGraph 44100.0 64 = .ok chain ∧
      chain.inPlaceBoxes = [1, 2] ∧
      build Sample.zero Patch.cascade.signalGraph.apart 44100.0 64 = .ok apart ∧
      (play Machine.processor [fun boxes bus => (boxes, bus), fun boxes bus => (boxes, bus)] chain
          Patch.cascade.boxes (Bus.silent .zero 2 2 64)).2 =
        (play Machine.processor [fun boxes bus => (boxes, bus), fun boxes bus => (boxes, bus)] apart
          Patch.cascade.boxes (Bus.silent .zero 2 2 64)).2 := by
  have hsound : Patch.cascade.signalGraph.Sound := ⟨by decide, by decide, by decide⟩
  have hmirrors : Patch.cascade.signalGraph.Mirrors Patch.cascade.boxes := by
    intro node hnode
    obtain ⟨box, hbox, rfl⟩ : ∃ box ∈ Patch.cascade.boxes, box.node = node := List.mem_map.mp hnode
    simp only [Patch.cascade, List.mem_cons, List.not_mem_nil, or_false] at hbox
    rcases hbox with rfl | rfl | rfl | rfl <;> exact ⟨_, rfl, rfl⟩
  have hfed : (Bus.silent Sample.zero 2 2 64).Fed 64 := by
    intro channel hchannel
    simp [List.eq_of_mem_replicate hchannel, Buffer.constant]
  obtain ⟨chain, hbuild, hinPlace⟩ : ∃ chain,
      build Sample.zero Patch.cascade.signalGraph 44100.0 64 = .ok chain ∧
        chain.inPlaceBoxes = [1, 2] := ⟨_, rfl, by decide⟩
  obtain ⟨-, ⟨apart, hbuildApart, -, hsame⟩, -, hshares, -⟩ :=
    refines_dataflow Machine.processor_keepsSizes hsound hbuild
  refine ⟨chain, apart, hbuild, hinPlace, hbuildApart,
    hsame _ hshares _ (fun interlude hmem boxes bus hgood hbus => ?_) _ _ hmirrors hfed⟩
  obtain rfl : interlude = fun boxes bus => (boxes, bus) := by simpa using hmem
  exact ⟨hgood, hbus⟩

end Patchbay
