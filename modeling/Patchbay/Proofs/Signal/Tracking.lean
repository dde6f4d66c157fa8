import Patchbay.Proofs.Signal.Sharing

/-!
# Chains are true to the dataflow

Along a chain, the signal of every wire that is still to be read is found where its outlet was placed,
and two outlets still to be read never stand at one place. So a box that takes over a buffer destroys
nothing: only its own wire was to be read there.

The invariant speaks of pending wires only, those whose source has been performed and whose target has
not. A wire stops being pending when its target is performed, so nothing is said of a signal that has
been read, and nothing of what a buffer holds from the block before.
-/

namespace Patchbay.Chain

open Dataflow

variable {σ S : Type} {wires : List Connection} {blockSize : Nat}

/-- There is a buffer of one block at a location. -/
def Located (blockSize : Nat) (buffers : List (List (Buffer σ))) (location : Location) : Prop :=
  ∃ sizes, (buffers.map Buffer.sizes)[location.step]? = some sizes ∧
    sizes[location.outlet]? = some blockSize

/-- A buffer that is there can be found, in its step and by its outlet. -/
theorem Located.exists {buffers : List (List (Buffer σ))} {location : Location}
    (h : Located blockSize buffers location) :
    ∃ outlets buffer, buffers[location.step]? = some outlets ∧
      outlets[location.outlet]? = some buffer ∧ buffer.length = blockSize := by
  obtain ⟨sizes, hsizes, hsize⟩ := h
  rw [List.getElem?_map, Option.map_eq_some_iff] at hsizes
  obtain ⟨outlets, houtlets, rfl⟩ := hsizes
  rw [Buffer.sizes, List.getElem?_map, Option.map_eq_some_iff] at hsize
  obtain ⟨buffer, hbuffer, hlength⟩ := hsize
  exact ⟨outlets, buffer, houtlets, hbuffer, hlength⟩

/-- A buffer that is there has the size of a block. -/
theorem Located.length_bufferAt {buffers : List (List (Buffer σ))} {location : Location}
    (h : Located blockSize buffers location) : (bufferAt buffers location).length = blockSize := by
  obtain ⟨outlets, buffer, houtlets, hbuffer, hlength⟩ := h.exists
  simp [bufferAt, houtlets, hbuffer, hlength]

/-- A buffer that was written over is found as it was written. -/
theorem bufferAt_modify_self {buffers : List (List (Buffer σ))} {location : Location}
    (h : Located blockSize buffers location) (buffer : Buffer σ) :
    bufferAt (buffers.modify location.step fun outlets => outlets.set location.outlet buffer)
      location = buffer := by
  obtain ⟨outlets, old, houtlets, hold, -⟩ := h.exists
  have hbound : location.outlet < outlets.length := (List.getElem?_eq_some_iff.mp hold).1
  simp [bufferAt, houtlets, hbound]

/-- Writing over one buffer leaves all others as they were. -/
theorem bufferAt_modify_of_ne (buffers : List (List (Buffer σ))) {location other : Location}
    (hne : other ≠ location) (buffer : Buffer σ) :
    bufferAt (buffers.modify location.step fun outlets => outlets.set location.outlet buffer)
      other = bufferAt buffers other := by
  by_cases hstep : location.step = other.step
  · have houtlet : location.outlet ≠ other.outlet := by
      intro houtlet
      obtain ⟨step, outlet⟩ := location
      obtain ⟨otherStep, otherOutlet⟩ := other
      simp_all
    simp only [bufferAt, hstep, List.getElem?_modify_eq]
    cases buffers[other.step]? with
    | none => rfl
    | some outlets => simp [List.getElem?_set_ne houtlet]
  · simp [bufferAt, hstep]

/-- Writing the buffers of one step leaves those of the other steps as they were. -/
theorem bufferAt_set_of_ne (buffers : List (List (Buffer σ))) {position : Nat} {other : Location}
    (hne : other.step ≠ position) (outlets : List (Buffer σ)) :
    bufferAt (buffers.set position outlets) other = bufferAt buffers other := by
  simp [bufferAt, List.getElem?_set_ne (Ne.symm hne)]

/-- The buffers of a step are found as they were written. -/
theorem bufferAt_set_self {buffers : List (List (Buffer σ))} {position : Nat}
    (hposition : position < buffers.length) (outlets : List (Buffer σ)) (outlet : Nat) :
    bufferAt (buffers.set position outlets) ⟨position, outlet⟩ = (outlets[outlet]?).getD [] := by
  simp [bufferAt, hposition]

/-- An inlet reads what the buffers hold at the locations that feed it. -/
theorem read_feedOf (processor : Processor σ S) (blockSize : Nat)
    (buffers : List (List (Buffer σ))) (locations : List Location) :
    read processor blockSize buffers (feedOf locations) =
      merge processor blockSize (locations.map (bufferAt buffers)) := by
  match locations with
  | [] => rfl
  | [location] => rfl
  | first :: second :: rest =>
    simp only [feedOf, read, merge, List.map_cons, Option.some.injEq]
    rw [← foldl_addInto_eq_total, ← List.map_cons, ← List.map_cons, List.foldl_map]

/-- A wire is pending while its source has been visited and its target has not. -/
def Pending (wires : List Connection) (visited : List Nat) (edge : Connection) : Prop :=
  edge ∈ wires ∧ edge.source ∈ visited ∧ edge.target ∉ visited

/-- A box is next if it has not been visited, all boxes that feed it have been, and its wires leave
outlets that put out signals. -/
structure Next (wires : List Connection) (visited : List Nat) (node : SignalNode) : Prop where
  fresh : node.id ∉ visited
  fed : ∀ edge ∈ wires, edge.target = node.id → edge.source ∈ visited
  signal : ∀ edge ∈ wires, edge.source = node.id → node.outlets[edge.outlet]? = some true

/-- All wires that end at the next box are pending. -/
theorem Next.pending {visited : List Nat} {node : SignalNode} (h : Next wires visited node)
    {edge : Connection} (hedge : edge ∈ wires) (htarget : edge.target = node.id) :
    Pending wires visited edge :=
  ⟨hedge, h.fed edge hedge htarget, htarget ▸ h.fresh⟩

/-- After a visit, a pending wire was pending before or comes from the box just visited. -/
theorem Pending.of_append {visited : List Nat} {id : Nat} {edge : Connection}
    (h : Pending wires (visited ++ [id]) edge) :
    edge.target ≠ id ∧ (Pending wires visited edge ∨ edge.source = id) := by
  obtain ⟨hedge, hsource, htarget⟩ := h
  simp only [List.mem_append, List.mem_singleton, not_or] at hsource htarget
  refine ⟨htarget.2, ?_⟩
  rcases hsource with hsource | hsource
  · exact Or.inl ⟨hedge, hsource, htarget.1⟩
  · exact Or.inr hsource

/-- The buffers of a chain under way are true to a dataflow: the signal of every pending wire is found
where its outlet was placed, in a buffer of its own. -/
structure Tracks (wires : List Connection) (blockSize : Nat) (visited : List Nat)
    (placed : Placement) (flow : Flow σ S) (stage : Stage σ S) : Prop where
  boxes : flow.boxes = stage.boxes
  bus : flow.bus = stage.bus
  holds : ∀ edge, Pending wires visited edge →
    bufferAt flow.buffers (placed edge.source edge.outlet) = stage.produced edge.source edge.outlet
  /-- Two outlets still to be read do not share a buffer. -/
  apart : ∀ first second, Pending wires visited first → Pending wires visited second →
    placed first.source first.outlet = placed second.source second.outlet →
    first.source = second.source ∧ first.outlet = second.outlet
  /-- The buffers stand at steps that have been performed. -/
  behind : ∀ edge, Pending wires visited edge →
    (placed edge.source edge.outlet).step < visited.length
  located : ∀ edge, Pending wires visited edge →
    Located blockSize flow.buffers (placed edge.source edge.outlet)

/-- Writing over an entry with one that looks the same changes nothing about the looks of a list. -/
theorem map_set_of_eq {A B : Type} (look : A → B) (entries : List A) (position : Nat) (entry : A)
    (heq : ∀ old, entries[position]? = some old → look entry = look old) :
    (entries.set position entry).map look = entries.map look := by
  apply List.ext_getElem?
  intro index
  rw [List.getElem?_map, List.getElem?_map, List.getElem?_set]
  split
  · next hindex =>
    subst hindex
    split
    · next hbound => simp [List.getElem?_eq_getElem hbound, heq _ (List.getElem?_eq_getElem hbound)]
    · next hbound => rw [List.getElem?_eq_none (by omega)]
  · rfl

/-- Performing a step leaves all buffers at their sizes. -/
theorem sizes_performStep {processor : Processor σ S} (hkeeps : processor.KeepsSizes)
    (blockSize : Nat) (flow : Flow σ S) (position : Nat) (step : Step) :
    (performStep processor blockSize flow position step).buffers.map Buffer.sizes =
      flow.buffers.map Buffer.sizes := by
  unfold performStep
  split
  · next location _ =>
    simp only [List.modify_eq_set_getElem?]
    cases houtlets : flow.buffers[location.step]? with
    | none => simp
    | some outlets =>
      refine map_set_of_eq Buffer.sizes _ _ _ fun old hold => ?_
      obtain rfl : outlets = old := by simpa [houtlets] using hold
      refine map_set_of_eq List.length _ _ _ fun buffer hbuffer => ?_
      rw [hkeeps.performInPlace]
      simp [bufferAt, houtlets, hbuffer]
  · refine map_set_of_eq Buffer.sizes _ _ _ fun old hold => ?_
    rw [hkeeps.perform, hold, Option.getD_some]

/-- Performing steps leaves all buffers at their sizes. -/
theorem sizes_performFrom {processor : Processor σ S} (hkeeps : processor.KeepsSizes)
    (blockSize position : Nat) (steps : List Step) (flow : Flow σ S) :
    (performFrom processor blockSize position steps flow).buffers.map Buffer.sizes =
      flow.buffers.map Buffer.sizes := by
  induction steps generalizing position flow with
  | nil => rfl
  | cons step rest ih => rw [performFrom, ih, sizes_performStep hkeeps]

namespace Tracks

variable {processor : Processor σ S} {visited : List Nat} {placed : Placement} {flow : Flow σ S}
  {stage : Stage σ S} {node : SignalNode}

/-- The next box reads at each inlet what the inlet sees. -/
theorem read_eq_seen (h : Tracks wires blockSize visited placed flow stage)
    (hnext : Next wires visited node) (inlet : Nat) :
    read processor blockSize flow.buffers
        (feedOf ((arriving wires node.id inlet).map fun edge => placed edge.source edge.outlet)) =
      seen processor blockSize wires stage.produced node.id inlet := by
  have hmap : ((arriving wires node.id inlet).map fun edge => placed edge.source edge.outlet).map
        (bufferAt flow.buffers) =
      (arriving wires node.id inlet).map fun edge => stage.produced edge.source edge.outlet := by
    rw [List.map_map]
    refine List.map_congr_left fun edge hedge => ?_
    simp only [arriving, List.mem_filter, Bool.and_eq_true, beq_iff_eq] at hedge
    exact h.holds edge (hnext.pending hedge.1 hedge.2.1)
  rw [read_feedOf, hmap, seen]

/-- A box with buffers of its own writes into them what it produces in the dataflow. -/
theorem performStep_eq (processor : Processor σ S)
    (h : Tracks wires blockSize visited placed flow stage)
    (hnext : Next wires visited node) (hnot : ∀ edge, ¬ TakesOver wires node edge)
    {found : List (Buffer σ)} (hfound : flow.buffers[visited.length]? = some found) :
    performStep processor blockSize flow visited.length (stepOf wires placed node) =
      { boxes := (perform processor blockSize wires node found stage).boxes
        buffers := flow.buffers.set visited.length
          (processor.perform stage.boxes node.id
            (inputs processor blockSize wires node stage) found).2.outlets
        bus := (perform processor blockSize wires node found stage).bus } := by
  rw [stepOf_of_not_takesOver placed hnot]
  have hinputs : ((List.range node.inlets).map fun inlet => feedOf ((arriving wires node.id
        inlet).map fun edge => placed edge.source edge.outlet)).map
          (read processor blockSize flow.buffers) =
      (List.range node.inlets).map (seen processor blockSize wires stage.produced node.id) := by
    rw [List.map_map]
    exact List.map_congr_left fun inlet _ => h.read_eq_seen hnext inlet
  simp only [performStep, hinputs, hfound, Option.getD_some, h.boxes, h.bus]
  rfl

/-- A visit of a box with buffers of its own keeps the buffers true to the dataflow. -/
theorem performed (h : Tracks wires blockSize visited placed flow stage)
    (hnext : Next wires visited node) (hnot : ∀ edge, ¬ TakesOver wires node edge)
    (hkeeps : processor.KeepsSizes) {found : List (Buffer σ)}
    (hfound : flow.buffers[visited.length]? = some found)
    (hsizes : Buffer.sizes found = node.sizes blockSize) :
    Tracks wires blockSize (visited ++ [node.id])
      (place placed visited.length (stepOf wires placed node))
      (performStep processor blockSize flow visited.length (stepOf wires placed node))
      (perform processor blockSize wires node found stage) := by
  have hsame := sizes_performStep hkeeps blockSize flow visited.length (stepOf wires placed node)
  rw [h.performStep_eq processor hnext hnot hfound] at hsame ⊢
  have hposition := (List.getElem?_eq_some_iff.mp hfound).1
  have hplace := place_of_not_takesOver placed visited.length hnot
  have hold : ∀ edge, Pending wires visited edge → edge.source ≠ node.id := by
    intro edge hedge heq
    exact hnext.fresh (heq ▸ hedge.2.1)
  refine ⟨rfl, rfl, ?_, ?_, ?_, ?_⟩
  · intro edge hedge
    obtain ⟨-, hpending | hsource⟩ := hedge.of_append
    · have hbehind := h.behind edge hpending
      simp only [hplace, hold edge hpending, if_false]
      rw [bufferAt_set_of_ne _ (by omega), h.holds edge hpending]
      simp [perform, hold edge hpending]
    · simp only [hplace, hsource, if_true]
      rw [bufferAt_set_self hposition]
      simp [perform]
  · intro first second hfirst hsecond heq
    obtain ⟨-, hfirstOld | hfirstNew⟩ := hfirst.of_append <;>
      obtain ⟨-, hsecondOld | hsecondNew⟩ := hsecond.of_append
    · simp only [hplace, hold _ hfirstOld, hold _ hsecondOld, if_false] at heq
      exact h.apart first second hfirstOld hsecondOld heq
    · simp only [hplace, hold _ hfirstOld, hsecondNew, if_false, if_true] at heq
      have hbehind := h.behind first hfirstOld
      rw [heq] at hbehind
      exact absurd hbehind (Nat.lt_irrefl _)
    · simp only [hplace, hold _ hsecondOld, hfirstNew, if_false, if_true] at heq
      have hbehind := h.behind second hsecondOld
      rw [← heq] at hbehind
      exact absurd hbehind (Nat.lt_irrefl _)
    · simp only [hplace, hfirstNew, hsecondNew, if_true, Location.mk.injEq, true_and] at heq
      exact ⟨hfirstNew.trans hsecondNew.symm, heq⟩
  · intro edge hedge
    rw [List.length_append, List.length_singleton]
    obtain ⟨-, hpending | hsource⟩ := hedge.of_append
    · have hbehind := h.behind edge hpending
      simp only [hplace, hold edge hpending, if_false]
      omega
    · simp only [hplace, hsource, if_true]
      omega
  · intro edge hedge
    rw [Located, hsame]
    obtain ⟨-, hpending | hsource⟩ := hedge.of_append
    · simp only [hplace, hold edge hpending, if_false]
      exact h.located edge hpending
    · refine ⟨node.sizes blockSize, ?_, ?_⟩
      · simp [hplace, hsource, hfound, hsizes]
      · simp [hplace, hsource, SignalNode.sizes, hnext.signal edge hedge.1 hsource]

/-- A visit of a box that takes over a buffer keeps the buffers true to the dataflow: nobody else was
to read what stood there. -/
theorem tookOver (h : Tracks wires blockSize visited placed flow stage)
    (hnext : Next wires visited node) {edge : Connection} (hedge : TakesOver wires node edge)
    (hkeeps : processor.KeepsSizes) :
    Tracks wires blockSize (visited ++ [node.id])
      (place placed visited.length (stepOf wires placed node))
      (performStep processor blockSize flow visited.length (stepOf wires placed node))
      (performInPlace processor node (stage.produced edge.source edge.outlet) stage) := by
  have hsame := sizes_performStep hkeeps blockSize flow visited.length (stepOf wires placed node)
  have hplace := hedge.place_eq placed visited.length
  have htaken : Pending wires visited edge := hnext.pending hedge.mem.1 hedge.mem.2
  have hstep : performStep processor blockSize flow visited.length (stepOf wires placed node) =
      { boxes := (processor.performInPlace stage.boxes node.id
          (stage.produced edge.source edge.outlet)).1
        buffers := flow.buffers.modify (placed edge.source edge.outlet).step fun outlets =>
          outlets.set (placed edge.source edge.outlet).outlet
            (processor.performInPlace stage.boxes node.id
              (stage.produced edge.source edge.outlet)).2
        bus := stage.bus } := by
    rw [hedge.stepOf_eq placed]
    simp only [performStep, h.holds edge htaken, h.boxes, h.bus]
  rw [hstep] at hsame ⊢
  have hold : ∀ wire, Pending wires visited wire → wire.source ≠ node.id := by
    intro wire hwire heq
    exact hnext.fresh (heq ▸ hwire.2.1)
  -- The other pending wires stand elsewhere: this one alone leaves its outlet.
  have helsewhere : ∀ wire, Pending wires (visited ++ [node.id]) wire → Pending wires visited wire →
      placed wire.source wire.outlet ≠ placed edge.source edge.outlet := by
    intro wire hwire hpending heq
    obtain ⟨hsource, houtlet⟩ := h.apart wire edge hpending htaken heq
    have hsameWire := hedge.eq_of_outlet hwire.1 hsource houtlet
    exact hwire.of_append.1 (hsameWire ▸ hedge.mem.2)
  have hzero : ∀ wire ∈ wires, wire.source = node.id → wire.outlet = 0 := by
    intro wire hwire hsource
    exact hedge.outlet_eq_zero (hnext.signal wire hwire hsource)
  refine ⟨rfl, rfl, ?_, ?_, ?_, ?_⟩
  · intro wire hwire
    obtain ⟨-, hpending | hsource⟩ := hwire.of_append
    · simp only [hplace, hold wire hpending, if_false]
      rw [bufferAt_modify_of_ne _ (helsewhere wire hwire hpending), h.holds wire hpending]
      simp [performInPlace, hold wire hpending]
    · simp only [hplace, hsource, hzero wire hwire.1 hsource, if_true]
      rw [bufferAt_modify_self (h.located edge htaken)]
      simp [performInPlace]
  · intro first second hfirst hsecond heq
    obtain ⟨-, hfirstOld | hfirstNew⟩ := hfirst.of_append <;>
      obtain ⟨-, hsecondOld | hsecondNew⟩ := hsecond.of_append
    · simp only [hplace, hold _ hfirstOld, hold _ hsecondOld, if_false] at heq
      exact h.apart first second hfirstOld hsecondOld heq
    · simp only [hplace, hold _ hfirstOld, hsecondNew, hzero _ hsecond.1 hsecondNew, if_false,
        if_true] at heq
      exact absurd heq (helsewhere first hfirst hfirstOld)
    · simp only [hplace, hold _ hsecondOld, hfirstNew, hzero _ hfirst.1 hfirstNew, if_false,
        if_true] at heq
      exact absurd heq.symm (helsewhere second hsecond hsecondOld)
    · exact ⟨hfirstNew.trans hsecondNew.symm,
        (hzero _ hfirst.1 hfirstNew).trans (hzero _ hsecond.1 hsecondNew).symm⟩
  · intro wire hwire
    rw [List.length_append, List.length_singleton]
    obtain ⟨-, hpending | hsource⟩ := hwire.of_append
    · have hbehind := h.behind wire hpending
      simp only [hplace, hold wire hpending, if_false]
      omega
    · have hbehind := h.behind edge htaken
      simp only [hplace, hsource, hzero wire hwire.1 hsource, if_true]
      omega
  · intro wire hwire
    rw [Located, hsame]
    obtain ⟨-, hpending | hsource⟩ := hwire.of_append
    · simp only [hplace, hold wire hpending, if_false]
      exact h.located wire hpending
    · simp only [hplace, hsource, hzero wire hwire.1 hsource, if_true]
      exact h.located edge htaken

end Tracks

end Patchbay.Chain
