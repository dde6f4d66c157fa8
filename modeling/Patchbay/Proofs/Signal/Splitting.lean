import Mathlib.Logic.Function.Basic
import Patchbay.Proofs.Signal.Sweep

/-!
# Blocks split in two

A block of signals may be computed in two parts, one after the other, if every box can do so: what it
puts out in the two parts is what it puts out at once, and it ends in the same state. In the two parts
each box is visited twice, but since a box has a state of its own, nothing that another box does in
between matters to it.

Sums of signals and the channels of the bus are formed sample by sample, so the same can be said of any
stretch of a block.
-/

namespace Patchbay

variable {σ α S : Type}

/-! ### Stretches of blocks -/

/-- A stretch of a buffer. -/
def Buffer.stretch (start count : Nat) (buffer : Buffer σ) : Buffer σ := (buffer.drop start).take count

/-- A stretch of what a box reads. -/
def Inputs.stretch (start count : Nat) (inputs : Inputs σ) : Inputs σ :=
  ⟨inputs.inlets.map (·.map (Buffer.stretch start count)),
    inputs.channels.map (Buffer.stretch start count), count⟩

/-- A stretch of what a box writes. -/
def Outputs.stretch (start count : Nat) (outputs : Outputs σ) : Outputs σ :=
  ⟨outputs.outlets.map (Buffer.stretch start count),
    outputs.channels.map fun channel => (channel.1, channel.2.stretch start count)⟩

/-- A stretch of what is on a bus. -/
def Bus.stretch (start count : Nat) (bus : Bus σ) : Bus σ :=
  ⟨bus.inputs.map (Buffer.stretch start count), bus.outputs.map (Buffer.stretch start count)⟩

namespace Buffer

variable {start count : Nat}

/-- The samples of a stretch. -/
theorem getElem?_stretch (buffer : Buffer σ) (index : Nat) :
    (buffer.stretch start count)[index]? = if index < count then buffer[start + index]? else none := by
  rw [stretch, List.getElem?_take, List.getElem?_drop]

/-- The first of two buffers put together is what stands first. -/
theorem stretch_append_left {front : Buffer σ} (h : front.length = count) (back : Buffer σ) :
    stretch 0 count (front ++ back) = front := by
  rw [stretch, List.drop_zero, List.take_left' h]

/-- The second of two buffers put together is what stands behind the first. -/
theorem stretch_append_right {front back : Buffer σ} (hfront : front.length = start)
    (hback : back.length = count) : stretch start count (front ++ back) = back := by
  rw [stretch, List.drop_left' hfront, List.take_of_length_le (Nat.le_of_eq hback)]

/-- A buffer is its first part with its second part behind. -/
theorem stretch_append_stretch {buffer : Buffer σ} (h : buffer.length = start + count) :
    buffer.stretch 0 start ++ buffer.stretch start count = buffer := by
  have hbehind : (buffer.drop start).length ≤ count := by rw [List.length_drop, h]; omega
  rw [stretch, List.drop_zero, stretch, List.take_of_length_le hbehind, List.take_append_drop]

/-- The samples of a buffer that is written over. -/
theorem getElem?_overwrite (buffer samples : Buffer σ) (index : Nat) :
    (buffer.overwrite samples)[index]? = buffer[index]?.map fun x => samples[index]?.getD x := by
  rw [overwrite, List.getElem?_append, List.getElem?_take, List.getElem?_drop, List.length_take]
  by_cases hbuffer : index < buffer.length
  · by_cases hsample : index < samples.length
    · simp [hbuffer, hsample]
    · have hplace : samples.length + (index - min buffer.length samples.length) = index := by omega
      simp [hbuffer, hsample, hplace]
  · have hbeyond : buffer.length ≤ samples.length + (index - min buffer.length samples.length) := by
      omega
    simp [hbuffer, hbeyond]

/-- The samples that are brought to a size. -/
theorem getElem?_fit (size : Nat) (filler : σ) (samples : Buffer σ) (index : Nat) :
    (fit size filler samples)[index]? =
      if index < size then some (samples[index]?.getD filler) else none := by
  rw [fit, List.getElem?_append, List.getElem?_take, List.length_take, List.getElem?_replicate]
  by_cases hsample : index < samples.length
  · by_cases hsize : index < size
    · simp [hsample, hsize]
    · simp [hsize, show size - samples.length ≤ index - min size samples.length by omega]
  · by_cases hsize : index < size
    · simp [hsample, hsize, show index - min size samples.length < size - samples.length by omega]
    · simp [hsample, hsize, show ¬index - min size samples.length < size - samples.length by omega]

/-- A stretch of one value throughout. -/
theorem stretch_constant {size : Nat} (h : start + count ≤ size) (value : σ) :
    (constant size value).stretch start count = constant count value := by
  rw [stretch, constant, List.drop_replicate, List.take_replicate, Nat.min_eq_left (by omega), constant]

/-- A stretch of a buffer that is written over is written over by a stretch of the samples. -/
theorem stretch_overwrite (buffer samples : Buffer σ) :
    (buffer.overwrite samples).stretch start count =
      (buffer.stretch start count).overwrite (samples.stretch start count) := by
  apply List.ext_getElem?
  intro index
  simp only [getElem?_overwrite, getElem?_stretch]
  split
  · rfl
  · rfl

/-- A stretch of samples that are brought to a size. -/
theorem stretch_fit {size : Nat} (h : start + count ≤ size) (filler : σ) (samples : Buffer σ) :
    (fit size filler samples).stretch start count =
      fit count filler (samples.stretch start count) := by
  apply List.ext_getElem?
  intro index
  simp only [getElem?_fit, getElem?_stretch]
  split
  · next hindex => rw [if_pos (by omega)]
  · rfl

/-- A stretch of a sum is the sum of the stretches. -/
theorem stretch_addInto (add : σ → σ → σ) (buffer samples : Buffer σ) :
    (buffer.addInto add samples).stretch start count =
      (buffer.stretch start count).addInto add (samples.stretch start count) := by
  apply List.ext_getElem?
  intro index
  simp only [getElem?_addInto, getElem?_stretch]
  split
  · rfl
  · rfl

end Buffer

/-- A stretch of the bus gets a stretch of what is added to the bus. -/
theorem Bus.stretch_foldl_addOutput (start count : Nat) (add : σ → σ → σ)
    (channels : List (Nat × Buffer σ)) (bus : Bus σ) :
    (channels.foldl (fun bus channel => bus.addOutput add channel.1 channel.2) bus).stretch start count =
      (channels.map fun channel => (channel.1, channel.2.stretch start count)).foldl
        (fun bus channel => bus.addOutput add channel.1 channel.2) (bus.stretch start count) := by
  induction channels generalizing bus with
  | nil => rfl
  | cons channel channels ih =>
    have hadded : (bus.addOutput add channel.1 channel.2).stretch start count =
        (bus.stretch start count).addOutput add channel.1 (channel.2.stretch start count) := by
      simp only [stretch, addOutput, Bus.mk.injEq, true_and]
      apply List.ext_getElem?
      intro index
      simp only [List.getElem?_map, List.getElem?_modify, Option.map_eq_map, Option.map_map]
      congr 1
      funext buffer
      simp only [Function.comp_apply]
      split
      · exact Buffer.stretch_addInto add buffer channel.2
      · rfl
    rw [List.foldl_cons, ih, hadded]
    rfl

namespace Dataflow

variable {processor : Processor σ S} {wires : List Connection} {start count size : Nat}

/-- A stretch of a sum of signals. -/
theorem stretch_total (h : start + count ≤ size) (signals : List (Buffer σ)) :
    (total processor size signals).stretch start count =
      total processor count (signals.map (Buffer.stretch start count)) := by
  apply List.ext_getElem?
  intro index
  rw [Buffer.getElem?_stretch]
  simp only [total, List.getElem?_map]
  split
  · next hindex =>
    rw [List.getElem?_range (by omega), List.getElem?_range hindex, Option.map_some, Option.map_some,
      List.filterMap_map]
    congr 3
    funext signal
    rw [Function.comp_apply, Buffer.getElem?_stretch, if_pos hindex]
  · next hindex => rw [List.getElem?_eq_none (by simpa using hindex)]; rfl

/-- A stretch of what comes of signals that meet. -/
theorem stretch_merge (h : start + count ≤ size) (signals : List (Buffer σ)) :
    (merge processor size signals).map (Buffer.stretch start count) =
      merge processor count (signals.map (Buffer.stretch start count)) := by
  match signals with
  | [] | [_] => rfl
  | _ :: _ :: _ => exact congrArg some (stretch_total h _)

/-- One stage of a block has, for a stretch of the block, what another has for all of it. -/
structure Stretch (start count : Nat) (whole stage : Stage σ S) : Prop where
  produced : ∀ id outlet, stage.produced id outlet = (whole.produced id outlet).stretch start count
  bus : stage.bus = whole.bus.stretch start count

/-- A box is then given a stretch of what it is given for all of the block. -/
theorem Stretch.inputs {whole stage : Stage σ S} (hstretch : Stretch start count whole stage)
    (h : start + count ≤ size) (node : SignalNode) :
    Dataflow.inputs processor count wires node stage =
      (Dataflow.inputs processor size wires node whole).stretch start count := by
  simp only [Dataflow.inputs, Inputs.stretch, hstretch.bus, Bus.stretch, List.map_map, Inputs.mk.injEq,
    and_true]
  refine List.map_congr_left fun inlet _ => ?_
  simp only [Function.comp_apply, seen, stretch_merge h, List.map_map]
  congr 1
  refine List.map_congr_left fun edge _ => ?_
  rw [Function.comp_apply, hstretch.produced]

end Dataflow

/-! ### Visits -/

/-- Boxes of which each computes with a state of its own, which is seen in the states of all boxes. -/
structure Processor.Separate (processor : Processor σ S) (look : S → Nat → α)
    (act : α → Inputs σ → List (Buffer σ) → α × Outputs σ) : Prop where
  outputs : ∀ boxes id inputs found,
    (processor.perform boxes id inputs found).2 = (act (look boxes id) inputs found).2
  states : ∀ boxes id inputs found, look (processor.perform boxes id inputs found).1 =
    Function.update (look boxes) id (act (look boxes id) inputs found).1

/-- A box in a state computes a block in two parts as it does at once, from silent buffers each time. -/
structure Splits (act : α → Inputs σ → List (Buffer σ) → α × Outputs σ) (zero : σ)
    (node : SignalNode) (state : α) : Prop where
  front : ∀ (inputs : Inputs σ) (first second : Nat), inputs.blockSize = first + second →
    (act state (inputs.stretch 0 first) (node.blank zero first)).2 =
      (act state inputs (node.blank zero (first + second))).2.stretch 0 first
  back : ∀ (inputs : Inputs σ) (first second : Nat), inputs.blockSize = first + second →
    act (act state (inputs.stretch 0 first) (node.blank zero first)).1 (inputs.stretch first second)
        (node.blank zero second) =
      ((act state inputs (node.blank zero (first + second))).1,
        (act state inputs (node.blank zero (first + second))).2.stretch first second)

/-- A stretch of silent buffers is silent. -/
theorem SignalNode.stretch_blank (node : SignalNode) {start count size : Nat}
    (h : start + count ≤ size) (zero : σ) :
    (node.blank zero size).map (Buffer.stretch start count) = node.blank zero count := by
  simp only [blank, sizes, List.map_map]
  refine List.map_congr_left fun signal _ => ?_
  simp only [Function.comp_apply]
  cases signal with
  | true => exact Buffer.stretch_constant h zero
  | false => simp [Buffer.stretch, Buffer.constant]

/-- A box that remembers nothing does so if it computes every stretch of a block for itself. -/
theorem Splits.of_stateless {act : α → Inputs σ → List (Buffer σ) → α × Outputs σ} {zero : σ}
    {node : SignalNode} {state : α} (hstate : ∀ inputs found, (act state inputs found).1 = state)
    (hstretch : ∀ (inputs : Inputs σ) (found : List (Buffer σ)) (start count : Nat),
      start + count ≤ inputs.blockSize →
      (act state (inputs.stretch start count) (found.map (Buffer.stretch start count))).2 =
        (act state inputs found).2.stretch start count) :
    Splits act zero node state where
  front inputs first second hsize := by
    rw [← node.stretch_blank (by omega : 0 + first ≤ first + second) zero]
    exact hstretch inputs _ 0 first (by omega)
  back inputs first second hsize := by
    refine Prod.ext ?_ ?_
    · rw [hstate, hstate, hstate]
    · rw [hstate, ← node.stretch_blank (Nat.le_refl (first + second)) zero]
      exact hstretch inputs _ first second (Nat.le_of_eq hsize.symm)

namespace Dataflow

section Visits

variable {processor : Processor σ S} {wires : List Connection} {start count size : Nat}

/-- After a visit a stage has a stretch of what another has, if the box has put out a stretch of what it
has put out there. -/
theorem Stretch.visit {whole stage : Stage σ S} (hstretch : Stretch start count whole stage)
    {node : SignalNode}
    (houtputs : (processor.perform stage.boxes node.id
        (Dataflow.inputs processor count wires node stage) (node.blank processor.zero count)).2 =
      (processor.perform whole.boxes node.id (Dataflow.inputs processor size wires node whole)
        (node.blank processor.zero size)).2.stretch start count) :
    Stretch start count (visit processor size wires whole node)
      (visit processor count wires stage node) := by
  refine ⟨fun id outlet => ?_, ?_⟩
  · simp only [Dataflow.visit, perform, houtputs]
    split
    · simp only [Outputs.stretch, List.getElem?_map]
      cases (processor.perform whole.boxes node.id (Dataflow.inputs processor size wires node whole)
        (node.blank processor.zero size)).2.outlets[outlet]? with
      | none => simp [Buffer.stretch]
      | some buffer => rfl
    · exact hstretch.produced id outlet
  · simp only [Dataflow.visit, perform, houtputs, hstretch.bus, Bus.stretch_foldl_addOutput]
    rfl

end Visits

variable {processor : Processor σ S} {wires : List Connection} {look : S → Nat → α}
  {act : α → Inputs σ → List (Buffer σ) → α × Outputs σ}

/-- A visit changes the state of the box that is visited. -/
theorem look_visit (hseparate : processor.Separate look act) (size : Nat) (stage : Stage σ S)
    (node : SignalNode) :
    look (visit processor size wires stage node).boxes = Function.update (look stage.boxes) node.id
      (act (look stage.boxes node.id) (inputs processor size wires node stage)
        (node.blank processor.zero size)).1 :=
  hseparate.states stage.boxes node.id _ _

/-- A box that is not visited keeps its state. -/
theorem look_sweep_of_notMem (hseparate : processor.Separate look act) (size : Nat) {id : Nat}
    {nodes : List SignalNode} (hid : id ∉ nodes.map SignalNode.id) (stage : Stage σ S) :
    look (sweep processor size wires nodes stage).boxes id = look stage.boxes id := by
  induction nodes generalizing stage with
  | nil => rfl
  | cons node nodes ih =>
    rw [List.map_cons, List.mem_cons, not_or] at hid
    rw [sweep, List.foldl_cons, ← sweep, ih hid.2, look_visit hseparate,
      Function.update_of_ne hid.1]

/-- A block and its two parts when some boxes are still to be visited. So far the parts have what the
block has. The first part finds the boxes to come as the block does, and the second one finds them as the
first part will leave them. -/
structure Parted (processor : Processor σ S) (wires : List Connection) (look : S → Nat → α)
    (first second : Nat) (nodes : List SignalNode) (whole front back : Stage σ S) : Prop where
  inFront : Stretch 0 first whole front
  inBack : Stretch first second whole back
  ahead : ∀ node ∈ nodes, look front.boxes node.id = look whole.boxes node.id
  behind : ∀ node ∈ nodes,
    look back.boxes node.id = look (sweep processor first wires nodes front).boxes node.id
  done : ∀ id, id ∉ nodes.map SignalNode.id → look back.boxes id = look whole.boxes id

/-- They stay so when the next box is visited, if it computes a block in two parts as it does at once. -/
theorem Parted.step (hseparate : processor.Separate look act) {first second : Nat}
    {node : SignalNode} {nodes : List SignalNode} (hnew : node.id ∉ nodes.map SignalNode.id)
    {whole front back : Stage σ S}
    (hsplits : Splits act processor.zero node (look whole.boxes node.id))
    (h : Parted processor wires look first second (node :: nodes) whole front back) :
    Parted processor wires look first second nodes
      (visit processor (first + second) wires whole node) (visit processor first wires front node)
      (visit processor second wires back node) := by
  have hstate := h.ahead node List.mem_cons_self
  have hfrontInputs : inputs processor first wires node front =
      (inputs processor (first + second) wires node whole).stretch 0 first :=
    h.inFront.inputs (by omega) node
  have hbackInputs : inputs processor second wires node back =
      (inputs processor (first + second) wires node whole).stretch first second :=
    h.inBack.inputs (Nat.le_refl _) node
  have hfirst := hsplits.front (inputs processor (first + second) wires node whole) first second rfl
  have hsecond := hsplits.back (inputs processor (first + second) wires node whole) first second rfl
  have hresumed : look back.boxes node.id = (act (look whole.boxes node.id)
      ((inputs processor (first + second) wires node whole).stretch 0 first)
      (node.blank processor.zero first)).1 := by
    rw [h.behind node List.mem_cons_self, sweep, List.foldl_cons, ← sweep,
      look_sweep_of_notMem hseparate first hnew, look_visit hseparate, Function.update_self, hstate,
      hfrontInputs]
  have hother : ∀ other ∈ nodes, other.id ≠ node.id := fun other hmem heq =>
    hnew (heq ▸ List.mem_map_of_mem hmem)
  refine ⟨h.inFront.visit ?_, h.inBack.visit ?_, fun other hmem => ?_, fun other hmem => ?_,
    fun id hid => ?_⟩
  · rw [hseparate.outputs, hseparate.outputs, hstate, hfrontInputs]
    exact hfirst
  · rw [hseparate.outputs, hseparate.outputs, hresumed, hbackInputs, hsecond]
  · rw [look_visit hseparate, look_visit hseparate, Function.update_of_ne (hother other hmem),
      Function.update_of_ne (hother other hmem)]
    exact h.ahead other (List.mem_cons_of_mem node hmem)
  · rw [look_visit hseparate, Function.update_of_ne (hother other hmem)]
    exact h.behind other (List.mem_cons_of_mem node hmem)
  · rw [look_visit hseparate, look_visit hseparate, hresumed, hbackInputs, hsecond]
    by_cases heq : id = node.id
    · rw [heq, Function.update_self, Function.update_self]
    · rw [Function.update_of_ne heq, Function.update_of_ne heq]
      refine h.done id ?_
      rw [List.map_cons, List.mem_cons, not_or]
      exact ⟨heq, hid⟩

/-- Visiting all boxes to come in two parts of a block gives the two parts of what visiting them once
gives, and leaves them in the same states. -/
theorem Parted.run (hseparate : processor.Separate look act) {first second : Nat}
    {nodes : List SignalNode} (hnodup : (nodes.map SignalNode.id).Nodup)
    {whole front back : Stage σ S}
    (hsplits : ∀ node ∈ nodes, Splits act processor.zero node (look whole.boxes node.id))
    (h : Parted processor wires look first second nodes whole front back) :
    Parted processor wires look first second [] (sweep processor (first + second) wires nodes whole)
      (sweep processor first wires nodes front) (sweep processor second wires nodes back) := by
  induction nodes generalizing whole front back with
  | nil => exact h
  | cons node nodes ih =>
    rw [List.map_cons, List.nodup_cons] at hnodup
    obtain ⟨hnew, hnodup⟩ := hnodup
    refine ih hnodup (fun other hmem => ?_) (h.step hseparate hnew (hsplits node List.mem_cons_self))
    have hother : other.id ≠ node.id := fun heq => hnew (heq ▸ List.mem_map_of_mem hmem)
    rw [look_visit hseparate, Function.update_of_ne hother]
    exact hsplits other (List.mem_cons_of_mem node hmem)

variable (wires) in
/-- A block may be computed in two parts. -/
theorem block_split (hseparate : processor.Separate look act) {nodes : List SignalNode}
    (hnodup : (nodes.map SignalNode.id).Nodup) {boxes : S}
    (hsplits : ∀ node ∈ nodes, Splits act processor.zero node (look boxes node.id))
    (outputs first second : Nat) (fed : List (Buffer σ)) :
    (block processor wires nodes outputs first boxes (fed.map (Buffer.stretch 0 first))).2 =
        (block processor wires nodes outputs (first + second) boxes fed).2.map
          (Buffer.stretch 0 first) ∧
      (block processor wires nodes outputs second
          (block processor wires nodes outputs first boxes (fed.map (Buffer.stretch 0 first))).1
          (fed.map (Buffer.stretch first second))).2 =
        (block processor wires nodes outputs (first + second) boxes fed).2.map
          (Buffer.stretch first second) := by
  have hstart : ∀ start count, start + count ≤ first + second → ∀ boxesNow : S,
      Stretch start count
        ⟨boxes, fun _ _ => [], ⟨fed, List.replicate outputs
          (Buffer.constant (first + second) processor.zero)⟩⟩
        ⟨boxesNow, fun _ _ => [], ⟨fed.map (Buffer.stretch start count),
          List.replicate outputs (Buffer.constant count processor.zero)⟩⟩ := by
    intro start count h boxesNow
    refine ⟨fun _ _ => by simp [Buffer.stretch], ?_⟩
    simp only [Bus.stretch, List.map_replicate, Buffer.stretch_constant h]
  -- The second part starts from the states in which the first one ends.
  have hparted : Parted processor wires look first second nodes _ _ _ :=
    ⟨hstart 0 first (by omega) boxes, hstart first second (Nat.le_refl _) _, fun _ _ => rfl,
      fun _ _ => rfl, fun id hid => look_sweep_of_notMem hseparate first hid _⟩
  have hdone := hparted.run hseparate hnodup hsplits
  exact ⟨congrArg Bus.outputs hdone.inFront.bus, congrArg Bus.outputs hdone.inBack.bus⟩

end Dataflow

end Patchbay
