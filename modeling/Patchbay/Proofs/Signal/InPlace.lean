import Patchbay.Proofs.Signal.Playing

/-!
# Working in place makes no difference

A chain in which boxes work in place is played beside one in which every box has buffers of its own.
Both are true to one dataflow, and in every block they go through the same stages of it, provided that
a box does in place what it does otherwise, and that the boxes before it write over the whole buffer
which it takes over, since that buffer does not hold what they left there in the block before.

What a box can rely on is kept open as a predicate on the states of the boxes: the laws are asked for
good states only, and good states are kept.
-/

namespace Patchbay

/-- The box with buffers of its own in any case. -/
def SignalNode.apart (node : SignalNode) : SignalNode := { node with inPlace := false }

/-- The graph in which no box can work in place. -/
def SignalGraph.apart (graph : SignalGraph) : SignalGraph :=
  { graph with nodes := graph.nodes.map SignalNode.apart }

/-- All samples that a box reads come in blocks of one size. -/
structure Inputs.Sized {σ : Type} (inputs : Inputs σ) (blockSize : Nat) : Prop where
  inlets : ∀ signal, some signal ∈ inputs.inlets → signal.length = blockSize
  channels : ∀ channel ∈ inputs.channels, channel.length = blockSize
  size : inputs.blockSize = blockSize

/-- All input channels of a bus hold blocks of one size. -/
def Bus.Fed {σ : Type} (bus : Bus σ) (blockSize : Nat) : Prop :=
  ∀ channel ∈ bus.inputs, channel.length = blockSize

namespace Processor

variable {σ S : Type}

/-- Performing a box in place is performing it with the buffer at its first inlet and nothing at the
others: the state comes out the same, the result is found at the first outlet, and nothing goes to the
bus. -/
def PerformsInPlace (processor : Processor σ S) (blockSize : Nat) (good : S → Prop)
    (node : SignalNode) : Prop :=
  ∀ boxes signal channels found, good boxes → signal.length = blockSize →
    (∀ channel ∈ channels, channel.length = blockSize) →
    Buffer.sizes found = node.sizes blockSize →
    processor.perform boxes node.id
        ⟨some signal :: List.replicate (node.inlets - 1) none, channels, blockSize⟩ found =
      ((processor.performInPlace boxes node.id signal).1,
        ⟨found.set 0 (processor.performInPlace boxes node.id signal).2, []⟩)

/-- A box writes over the whole buffer of an outlet: whatever it finds there makes no difference. -/
def Overwrites (processor : Processor σ S) (blockSize : Nat) (good : S → Prop)
    (node : SignalNode) (outlet : Nat) : Prop :=
  ∀ boxes inputs found buffer, good boxes → inputs.Sized blockSize →
    Buffer.sizes found = node.sizes blockSize →
    Buffer.sizes (found.set outlet buffer) = node.sizes blockSize →
    processor.perform boxes node.id inputs (found.set outlet buffer) =
      processor.perform boxes node.id inputs found

/-- What has to hold for boxes to work in place without a difference. -/
structure SharesBuffers (processor : Processor σ S) (blockSize : Nat) (good : S → Prop)
    (graph : SignalGraph) (inPlaceBoxes : List Nat) : Prop where
  perform_good : ∀ node ∈ graph.participants, ∀ boxes inputs found, good boxes →
    good (processor.perform boxes node.id inputs found).1
  performInPlace_good : ∀ node ∈ graph.participants, ∀ boxes signal, good boxes →
    good (processor.performInPlace boxes node.id signal).1
  inPlace : ∀ node ∈ graph.participants, node.id ∈ inPlaceBoxes →
    processor.PerformsInPlace blockSize good node
  overwrites : ∀ edge ∈ graph.wires, edge.target ∈ inPlaceBoxes →
    ∀ node ∈ graph.participants, node.id = edge.source →
      processor.Overwrites blockSize good node edge.outlet

/-- A box does the same with two lists of buffers that differ only where it writes over them. -/
theorem perform_congr {processor : Processor σ S} {blockSize : Nat} {good : S → Prop}
    {node : SignalNode} {boxes : S} {inputs : Inputs σ} (hgood : good boxes)
    (hinputs : inputs.Sized blockSize) {found other : List (Buffer σ)}
    (hfound : Buffer.sizes found = node.sizes blockSize)
    (hother : Buffer.sizes other = node.sizes blockSize)
    (hdiffer : ∀ outlet, found[outlet]? ≠ other[outlet]? →
      processor.Overwrites blockSize good node outlet) :
    processor.perform boxes node.id inputs found =
      processor.perform boxes node.id inputs other := by
  -- The buffers are exchanged one by one; those in front have been exchanged already.
  have hfront : ∀ found other front : List (Buffer σ),
      Buffer.sizes (front ++ found) = node.sizes blockSize →
      Buffer.sizes (front ++ other) = node.sizes blockSize →
      (∀ outlet, found[outlet]? ≠ other[outlet]? →
        processor.Overwrites blockSize good node (front.length + outlet)) →
      processor.perform boxes node.id inputs (front ++ found) =
        processor.perform boxes node.id inputs (front ++ other) := by
    intro found
    induction found with
    | nil =>
      intro other front hfound hother _
      have hlength := congrArg List.length (hfound.trans hother.symm)
      have hnil : other = [] := by
        simpa [Buffer.sizes, eq_comm] using hlength
      rw [hnil]
    | cons buffer rest ih =>
      intro other front hfound hother hdiffer
      cases other with
      | nil =>
        have hlength := congrArg List.length (hfound.trans hother.symm)
        simp [Buffer.sizes] at hlength
      | cons replacement others =>
        have hsame := hfound.trans hother.symm
        simp only [Buffer.sizes, List.map_append, List.map_cons, List.append_cancel_left_eq,
          List.cons.injEq] at hsame
        have hset : (front ++ buffer :: rest).set front.length replacement =
            front ++ replacement :: rest := by simp
        have hsizes : Buffer.sizes (front ++ replacement :: rest) = node.sizes blockSize := by
          rw [← hfound]
          simp [Buffer.sizes, hsame.1]
        have hhead : processor.perform boxes node.id inputs (front ++ buffer :: rest) =
            processor.perform boxes node.id inputs (front ++ replacement :: rest) := by
          by_cases heq : buffer = replacement
          · rw [heq]
          · have hover := hdiffer 0 (by simpa using heq)
            rw [Nat.add_zero] at hover
            rw [← hset] at hsizes ⊢
            exact (hover boxes inputs _ replacement hgood hinputs hfound hsizes).symm
        have htail := ih others (front ++ [replacement]) (by simpa using hsizes)
          (by simpa using hother) fun outlet hne => by
            have hover := hdiffer (outlet + 1) (by simpa using hne)
            simpa [Nat.add_assoc, Nat.add_comm 1] using hover
        rw [hhead]
        simpa using htail
  simpa using hfront found other [] hfound hother (by simpa using hdiffer)

end Processor

namespace Dataflow

variable {σ S : Type} {processor : Processor σ S} {blockSize : Nat}

/-- A sum of signals fills one block. -/
theorem length_of_merge_eq_some {signals : List (Buffer σ)}
    (hsignals : ∀ signal ∈ signals, signal.length = blockSize) {merged : Buffer σ}
    (hmerged : merge processor blockSize signals = some merged) : merged.length = blockSize := by
  match signals with
  | [] => cases hmerged
  | [signal] =>
    obtain rfl : signal = merged := by simpa [merge] using hmerged
    exact hsignals signal (by simp)
  | first :: second :: rest =>
    obtain rfl : total processor blockSize (first :: second :: rest) = merged := by
      simpa [merge] using hmerged
    simp [total]

/-- What a box is given comes in blocks of one size, if what the boxes before it produced does. -/
theorem inputs_sized {wires : List Connection} {node : SignalNode} {stage : Stage σ S}
    (hproduced : ∀ edge ∈ wires, edge.target = node.id →
      (stage.produced edge.source edge.outlet).length = blockSize)
    (hbus : stage.bus.Fed blockSize) :
    (inputs processor blockSize wires node stage).Sized blockSize where
  inlets signal hsignal := by
    obtain ⟨inlet, -, hseen⟩ := List.mem_map.mp hsignal
    refine length_of_merge_eq_some (fun produced hmem => ?_) hseen
    obtain ⟨edge, hedge, rfl⟩ := List.mem_map.mp hmem
    simp only [arriving, List.mem_filter, Bool.and_eq_true, beq_iff_eq] at hedge
    exact hproduced edge hedge.1 hedge.2.1
  channels := hbus
  size := rfl

/-- In the dataflow it makes no difference whether a box that takes over a buffer is performed with
buffers of its own or in place. -/
theorem perform_eq_performInPlace {good : S → Prop} {wires : List Connection} {node : SignalNode}
    {edge : Connection} (hedge : Chain.TakesOver wires node edge) (hinlet : 0 < node.inlets)
    (hlaw : processor.PerformsInPlace blockSize good node) {stage : Stage σ S}
    (hgood : good stage.boxes) (hbus : stage.bus.Fed blockSize)
    (hsignal : (stage.produced edge.source edge.outlet).length = blockSize)
    {found : List (Buffer σ)} (hfound : Buffer.sizes found = node.sizes blockSize) :
    perform processor blockSize wires node found stage =
      performInPlace processor node (stage.produced edge.source edge.outlet) stage := by
  have hseen : (List.range node.inlets).map
      (seen processor blockSize wires stage.produced node.id) =
        some (stage.produced edge.source edge.outlet) :: List.replicate (node.inlets - 1) none := by
    obtain ⟨others, hothers⟩ := Nat.exists_eq_succ_of_ne_zero (Nat.ne_of_gt hinlet)
    rw [hothers, List.range_succ_eq_map, List.map_cons, hedge.seen_first, List.map_map]
    congr 1
    rw [Nat.succ_sub_one, List.eq_replicate_iff]
    refine ⟨by simp, fun signal hsignal => ?_⟩
    obtain ⟨inlet, -, rfl⟩ := List.mem_map.mp hsignal
    exact hedge.seen_other processor stage.produced (Nat.succ_ne_zero inlet)
  obtain ⟨silent, houtlets, hsilent⟩ := hedge.outlets_eq
  have hequal := hlaw stage.boxes _ stage.bus.inputs found hgood hsignal hbus hfound
  simp only [perform, inputs, hseen, hequal, performInPlace, List.foldl_nil]
  congr 1
  funext id outlet
  by_cases hid : id = node.id
  · simp only [hid, if_true]
    rw [Buffer.sizes, SignalNode.sizes, houtlets] at hfound
    cases found with
    | nil => simp at hfound
    | cons first rest =>
      cases outlet with
      | zero => simp
      | succ outlet =>
        simp only [List.set_cons_zero, List.getElem?_cons_succ, Nat.succ_ne_zero, if_false]
        cases hrest : rest[outlet]? with
        | none => rfl
        | some buffer =>
          have hsize := congrArg (fun sizes => sizes[outlet + 1]?) hfound
          simp only [List.map_cons, List.getElem?_cons_succ, List.getElem?_map, hrest,
            Option.map_some] at hsize
          obtain ⟨signal, hsignal, hlength⟩ := Option.map_eq_some_iff.mp hsize.symm
          rw [hsilent signal (List.mem_of_getElem? hsignal)] at hlength
          exact List.length_eq_zero_iff.mp (by simpa using hlength.symm)
  · simp [hid]

end Dataflow

namespace Chain

open Dataflow

variable {σ S : Type} {processor : Processor σ S} {wires : List Connection} {blockSize : Nat}
  {nodes : List SignalNode}

/-- A box with buffers of its own in any case takes over no buffer. -/
theorem not_takesOver_apart (node : SignalNode) (edge : Connection) :
    ¬ TakesOver wires node.apart edge :=
  fun h => by simpa [SignalNode.apart] using h.able

/-- A box further on takes over the buffer of an outlet. -/
def Overtaken (wires : List Connection) (nodes : List SignalNode) (id outlet : Nat) : Prop :=
  ∃ edge, ∃ taker ∈ nodes, TakesOver wires taker edge ∧ edge.source = id ∧ edge.outlet = outlet

/-- Two chains have the same in all buffers except those that are taken over in the first. -/
def Alike (wires : List Connection) (nodes : List SignalNode)
    (shared apart : List (List (Buffer σ))) : Prop :=
  ∀ position node, nodes[position]? = some node → (∀ edge, ¬ TakesOver wires node edge) →
    ∀ outlet, ¬ Overtaken wires nodes node.id outlet →
      bufferAt shared ⟨position, outlet⟩ = bufferAt apart ⟨position, outlet⟩

/-- The signal of every pending wire stands at the outlet that it leaves, or in a buffer that was taken
over. -/
def Rooted (wires : List Connection) (nodes : List SignalNode) (visited : List Nat)
    (placed : Placement) : Prop :=
  ∀ edge, Pending wires visited edge →
    ∃ node, nodes[(placed edge.source edge.outlet).step]? = some node ∧
      (edge.source = node.id ∧ edge.outlet = (placed edge.source edge.outlet).outlet ∨
        Overtaken wires nodes node.id (placed edge.source edge.outlet).outlet)

/-- Two chains under way, one with shared buffers and one without, that have come equally far. -/
structure Twins (wires : List Connection) (blockSize : Nat) (nodes : List SignalNode)
    (visited : List Nat) (placed placedApart : Placement) (flow flowApart : Flow σ S)
    (stage : Stage σ S) : Prop where
  shared : Tracks wires blockSize visited placed flow stage
  apart : Tracks wires blockSize visited placedApart flowApart stage
  rooted : Rooted wires nodes visited placed
  alike : Alike wires nodes flow.buffers flowApart.buffers

/-- Two lists of buffers are told apart by what is found in them. -/
theorem getElem?_eq_of_bufferAt_eq {shared apart : List (List (Buffer σ))} {position outlet : Nat}
    {found other : List (Buffer σ)} (hfound : shared[position]? = some found)
    (hother : apart[position]? = some other) (hsizes : Buffer.sizes found = Buffer.sizes other)
    (heq : bufferAt shared ⟨position, outlet⟩ = bufferAt apart ⟨position, outlet⟩) :
    found[outlet]? = other[outlet]? := by
  have hlength : found.length = other.length := by
    simpa [Buffer.sizes] using congrArg List.length hsizes
  simp only [bufferAt, hfound, hother, Option.bind_some] at heq
  by_cases hbound : outlet < found.length
  · rw [List.getElem?_eq_getElem hbound, List.getElem?_eq_getElem (hlength ▸ hbound)] at heq ⊢
    simpa using heq
  · rw [List.getElem?_eq_none (by omega), List.getElem?_eq_none (by omega)]

namespace Twins

variable {done rest : List SignalNode} {node : SignalNode} {visited : List Nat}
  {placed placedApart : Placement} {flow flowApart : Flow σ S} {stage : Stage σ S}

/-- All signals that the next box is fed with fill one block. -/
theorem length_produced
    (h : Twins wires blockSize nodes visited placed placedApart flow flowApart stage)
    (hnext : Next wires visited node) {edge : Connection} (hedge : edge ∈ wires)
    (htarget : edge.target = node.id) :
    (stage.produced edge.source edge.outlet).length = blockSize := by
  have hpending := hnext.pending hedge htarget
  rw [← h.shared.holds edge hpending]
  exact (h.shared.located edge hpending).length_bufferAt

/-- A box with buffers of its own is performed alike in both chains. -/
theorem performed
    (h : Twins wires blockSize nodes visited placed placedApart flow flowApart stage)
    (hnode : nodes[visited.length]? = some node) (hnext : Next wires visited node)
    (hnot : ∀ edge, ¬ TakesOver wires node edge) (hkeeps : processor.KeepsSizes)
    {good : S → Prop} (hgood : good stage.boxes) (hbus : stage.bus.Fed blockSize)
    (hover : ∀ outlet, Overtaken wires nodes node.id outlet →
      processor.Overwrites blockSize good node outlet)
    {found other : List (Buffer σ)} (hfound : flow.buffers[visited.length]? = some found)
    (hfoundSizes : Buffer.sizes found = node.sizes blockSize)
    (hother : flowApart.buffers[visited.length]? = some other)
    (hotherSizes : Buffer.sizes other = node.sizes blockSize) :
    Twins wires blockSize nodes (visited ++ [node.id])
      (place placed visited.length (stepOf wires placed node))
      (place placedApart visited.length (stepOf wires placedApart node.apart))
      (performStep processor blockSize flow visited.length (stepOf wires placed node))
      (performStep processor blockSize flowApart visited.length
        (stepOf wires placedApart node.apart))
      (perform processor blockSize wires node found stage) := by
  have hnextApart : Next wires visited node.apart := ⟨hnext.fresh, hnext.fed, hnext.signal⟩
  have hsame : processor.perform stage.boxes node.id
        (inputs processor blockSize wires node stage) found =
      processor.perform stage.boxes node.id
        (inputs processor blockSize wires node stage) other := by
    refine Processor.perform_congr hgood
      (inputs_sized (fun edge hedge htarget => h.length_produced hnext hedge htarget) hbus)
      hfoundSizes hotherSizes fun outlet hne => hover outlet ?_
    by_contra hfree
    exact hne (getElem?_eq_of_bufferAt_eq hfound hother (hfoundSizes.trans hotherSizes.symm)
      (h.alike visited.length node hnode hnot outlet hfree))
  have hstage : perform processor blockSize wires node found stage =
      perform processor blockSize wires node.apart other stage := by
    change perform processor blockSize wires node found stage =
      perform processor blockSize wires node other stage
    simp only [perform, hsame]
  have hstep := h.shared.performStep_eq processor hnext hnot hfound
  have hstepApart := h.apart.performStep_eq processor hnextApart
    (not_takesOver_apart node) hother
  refine ⟨h.shared.performed hnext hnot hkeeps hfound hfoundSizes, ?_, ?_, ?_⟩
  · rw [hstage]
    exact h.apart.performed hnextApart (not_takesOver_apart node) hkeeps hother hotherSizes
  · intro edge hedge
    rw [place_of_not_takesOver placed visited.length hnot]
    obtain ⟨-, hpending | hsource⟩ := hedge.of_append
    · have hold : edge.source ≠ node.id := fun heq => hnext.fresh (heq ▸ hpending.2.1)
      simp only [hold, if_false]
      exact h.rooted edge hpending
    · simp only [hsource, if_true]
      exact ⟨node, hnode, Or.inl ⟨rfl, trivial⟩⟩
  · intro position other' hposition hnot' outlet hfree
    rw [hstep, hstepApart]
    by_cases heq : position = visited.length
    · subst heq
      rw [bufferAt_set_self (List.getElem?_eq_some_iff.mp hfound).1,
        bufferAt_set_self (List.getElem?_eq_some_iff.mp hother).1, hsame]
      rfl
    · rw [bufferAt_set_of_ne _ heq, bufferAt_set_of_ne _ heq]
      exact h.alike position other' hposition hnot' outlet hfree

/-- A box that takes over a buffer in the first chain has one of its own in the second, and does the
same there. -/
theorem tookOver
    (h : Twins wires blockSize nodes visited placed placedApart flow flowApart stage)
    (hnode : nodes[visited.length]? = some node) (hnext : Next wires visited node)
    {edge : Connection} (hedge : TakesOver wires node edge) (hinlet : 0 < node.inlets)
    (hkeeps : processor.KeepsSizes) {good : S → Prop} (hgood : good stage.boxes)
    (hbus : stage.bus.Fed blockSize) (hlaw : processor.PerformsInPlace blockSize good node)
    {other : List (Buffer σ)} (hother : flowApart.buffers[visited.length]? = some other)
    (hotherSizes : Buffer.sizes other = node.sizes blockSize) :
    Twins wires blockSize nodes (visited ++ [node.id])
      (place placed visited.length (stepOf wires placed node))
      (place placedApart visited.length (stepOf wires placedApart node.apart))
      (performStep processor blockSize flow visited.length (stepOf wires placed node))
      (performStep processor blockSize flowApart visited.length
        (stepOf wires placedApart node.apart))
      (performInPlace processor node (stage.produced edge.source edge.outlet) stage) := by
  have hnextApart : Next wires visited node.apart := ⟨hnext.fresh, hnext.fed, hnext.signal⟩
  have hstage := perform_eq_performInPlace hedge hinlet hlaw hgood hbus
    (h.length_produced hnext hedge.mem.1 hedge.mem.2) hotherSizes
  have htaken : Pending wires visited edge := hnext.pending hedge.mem.1 hedge.mem.2
  obtain ⟨root, hroot, hrooted⟩ := h.rooted edge htaken
  -- From now on the buffer counts as taken over, if it did not before.
  have hovertaken : Overtaken wires nodes root.id (placed edge.source edge.outlet).outlet := by
    rcases hrooted with ⟨hsource, houtlet⟩ | hovertaken
    · exact ⟨edge, node, List.mem_of_getElem? hnode, hedge, hsource, houtlet⟩
    · exact hovertaken
  have hstepApart := h.apart.performStep_eq processor hnextApart
    (not_takesOver_apart node) hother
  refine ⟨h.shared.tookOver hnext hedge hkeeps, ?_, ?_, ?_⟩
  · rw [← hstage]
    exact h.apart.performed hnextApart (not_takesOver_apart node) hkeeps hother hotherSizes
  · intro wire hwire
    rw [hedge.place_eq placed visited.length]
    obtain ⟨-, hpending | hsource⟩ := hwire.of_append
    · have hold : wire.source ≠ node.id := fun heq => hnext.fresh (heq ▸ hpending.2.1)
      simp only [hold, if_false]
      exact h.rooted wire hpending
    · have hzero := hedge.outlet_eq_zero (hnext.signal wire hwire.1 hsource)
      simp only [hsource, hzero, if_true]
      exact ⟨root, hroot, Or.inr hovertaken⟩
  · intro position owner hposition hnot outlet hfree
    have hlater : position ≠ visited.length := by
      rintro rfl
      obtain rfl : node = owner := by simpa [hnode] using hposition
      exact hnot edge hedge
    have helsewhere : (⟨position, outlet⟩ : Location) ≠ placed edge.source edge.outlet := by
      intro heq
      rw [← heq] at hroot hovertaken
      obtain rfl : owner = root := by simpa [hposition] using hroot
      exact hfree hovertaken
    rw [hstepApart, bufferAt_set_of_ne _ hlater, hedge.stepOf_eq placed]
    simp only [performStep]
    rw [bufferAt_modify_of_ne _ helsewhere]
    exact h.alike position owner hposition hnot outlet hfree

end Twins

end Chain

end Patchbay
