import Patchbay.Proofs.Box.Laws
import Patchbay.Proofs.Signal.Splitting

/-!
# Boxes that compute blocks in parts

All machines but the oscillator work sample by sample and remember nothing, so they compute every stretch
of a block for itself. An oscillator remembers its phase, and goes on from the phase at which the first
part of a block has left it.
-/

namespace Patchbay

variable {start count : Nat}

namespace Audio

/-- An inlet reads a stretch of what it reads in the whole block. -/
theorem samplesAt_stretch {inputs : Inputs Sample} (h : start + count ≤ inputs.blockSize)
    (inlet : Nat) :
    samplesAt (inputs.stretch start count) inlet =
      (samplesAt inputs inlet).stretch start count := by
  simp only [samplesAt, Inputs.stretch, List.getElem?_map]
  rcases inputs.inlets[inlet]? with _ | _ | signal
  · exact (Buffer.stretch_constant h _).symm
  · exact (Buffer.stretch_constant h _).symm
  · rfl

/-- The same inlets have wires. -/
theorem isConnected_stretch (inputs : Inputs Sample) (inlet : Nat) :
    isConnected (inputs.stretch start count) inlet = isConnected inputs inlet := by
  simp only [isConnected, Inputs.stretch, List.getElem?_map]
  rcases inputs.inlets[inlet]? with _ | _ | signal <;> rfl

/-- A channel gives a stretch of what it gives in the whole block. -/
theorem channel_stretch {inputs : Inputs Sample} (h : start + count ≤ inputs.blockSize)
    (channel : Nat) :
    ((inputs.stretch start count).channels[channel]?).getD
        (Buffer.constant (inputs.stretch start count).blockSize .zero) =
      Buffer.stretch start count
        (inputs.channels[channel]?.getD (Buffer.constant inputs.blockSize .zero)) := by
  simp only [Inputs.stretch, List.getElem?_map]
  cases inputs.channels[channel]? with
  | none => exact (Buffer.stretch_constant h _).symm
  | some signal => rfl

/-- What stands in a stretch of the first buffer after it has been written over. -/
theorem stretch_atFirst (buffers : List (Buffer Sample)) (samples : Buffer Sample) :
    (atFirst buffers samples).map (Buffer.stretch start count) =
      atFirst (buffers.map (Buffer.stretch start count)) (samples.stretch start count) := by
  cases buffers with
  | nil => rfl
  | cons buffer rest => simp [atFirst, Buffer.stretch_overwrite]

/-- A stretch of two signals combined is the stretches combined. -/
theorem stretch_zipWith (operation : Sample → Sample → Sample) (left right : Buffer Sample) :
    Buffer.stretch start count (List.zipWith operation left right) =
      List.zipWith operation (left.stretch start count) (right.stretch start count) := by
  rw [Buffer.stretch, List.drop_zipWith, List.take_zipWith]
  rfl

/-- A stretch of a signal changed sample by sample is the stretch so changed. -/
theorem stretch_map (operation : Sample → Sample) (signal : Buffer Sample) :
    Buffer.stretch start count (signal.map operation) =
      (signal.stretch start count).map operation := by
  rw [Buffer.stretch, ← List.map_drop, ← List.map_take]
  rfl

/-- The frequencies of an oscillator for a block of a size. -/
def frequencies (inputs : Inputs Sample) (frequency : Sample) (size : Nat) : List Sample :=
  if isConnected inputs 0 then Buffer.fit size frequency (samplesAt inputs 0)
  else List.replicate size frequency

/-- There is one for every sample. -/
theorem length_frequencies (inputs : Inputs Sample) (frequency : Sample) (size : Nat) :
    (frequencies inputs frequency size).length = size := by
  unfold frequencies
  split
  · exact Buffer.length_fit _ _ _
  · exact List.length_replicate

/-- Those for a stretch of a block are a stretch of those for all of it. -/
theorem stretch_frequencies {inputs : Inputs Sample} (h : start + count ≤ inputs.blockSize)
    (frequency : Sample) :
    Buffer.stretch start count (frequencies inputs frequency inputs.blockSize) =
      frequencies (inputs.stretch start count) frequency count := by
  simp only [frequencies, isConnected_stretch, samplesAt_stretch h]
  split
  · exact Buffer.stretch_fit h _ _
  · exact Buffer.stretch_constant h _

end Audio

/-- An oscillator goes on with the phase at which it has left off. -/
theorem Phase.oscillate_append (rate : Float) (phase : Phase) (ahead behind : List Sample) :
    phase.oscillate rate (ahead ++ behind) =
      (((phase.oscillate rate ahead).1.oscillate rate behind).1,
        (phase.oscillate rate ahead).2 ++ ((phase.oscillate rate ahead).1.oscillate rate behind).2) := by
  induction ahead generalizing phase with
  | nil => rfl
  | cons frequency ahead ih => simp only [List.cons_append, oscillate, ih]

/-- The samples of a cosine for a block are those for its first part, and then those for its second part
from the phase on that the first part ends in. -/
theorem Audio.oscillate_frequencies {inputs : Inputs Sample} {first second : Nat}
    (hsize : inputs.blockSize = first + second) (frequency : Sample) (phase : Phase) (rate : Float) :
    let ahead := phase.oscillate rate (frequencies (inputs.stretch 0 first) frequency first)
    let behind := ahead.1.oscillate rate (frequencies (inputs.stretch first second) frequency second)
    phase.oscillate rate (frequencies inputs frequency (first + second)) =
      (behind.1, ahead.2 ++ behind.2) := by
  have hparts : frequencies inputs frequency (first + second) =
      frequencies (inputs.stretch 0 first) frequency first ++
        frequencies (inputs.stretch first second) frequency second := by
    rw [← stretch_frequencies (by omega), ← stretch_frequencies (by omega), hsize]
    exact (Buffer.stretch_append_stretch (length_frequencies inputs frequency _)).symm
  rw [hparts, Phase.oscillate_append]

namespace Machine

/-- What a box does whose machine is known; a box that is not there does nothing. -/
def act (machine? : Option Machine) (inputs : Inputs Sample) (found : List (Buffer Sample)) :
    Option Machine × Outputs Sample :=
  match machine? with
  | some machine => (some (machine.perform inputs found).1, (machine.perform inputs found).2)
  | none => (none, ⟨found, []⟩)

/-- The machine of the box of a number. -/
def find? (boxes : List Box) (id : Nat) : Option Machine :=
  (boxes.find? fun box => box.id == id).map Box.machine

/-- Every box computes with its own machine. -/
theorem processor_separate : processor.Separate find? act where
  outputs boxes id inputs found := by
    simp only [processor, find?]
    cases boxes.find? fun box => box.id == id <;> rfl
  states boxes id inputs found := by
    funext wanted
    cases hbox : boxes.find? fun box => box.id == id with
    | none =>
      have hnone : find? boxes id = none := by rw [find?, hbox, Option.map_none]
      simp only [processor, hbox, hnone, act]
      rw [← hnone, Function.update_eq_self]
    | some box =>
      have hsome : find? boxes id = some box.machine := by rw [find?, hbox, Option.map_some]
      simp only [processor, hbox, hsome, act]
      rw [find?, find?_exchange, Option.map_map]
      by_cases heq : wanted = id
      · have hid : box.id = id := by simpa using List.find?_some hbox
        rw [heq, Function.update_self, hbox, Option.map_some, Function.comp_apply, if_pos hid]
      · rw [Function.update_of_ne heq, find?]
        cases hother : boxes.find? fun box => box.id == wanted with
        | none => rfl
        | some other =>
          have hid : other.id = wanted := by simpa using List.find?_some hother
          rw [Option.map_some, Option.map_some, Function.comp_apply, if_neg (hid ▸ heq)]

/-- An oscillator computes a block in two parts as it does at once. -/
theorem splits_oscillator {node : SignalNode} (houtlets : node.outlets = [true]) (frequency : Sample)
    (phase : Phase) (rate : Float) :
    Splits act .zero node (some (.audio (.oscillator frequency phase rate))) := by
  have hperform : ∀ (inputs : Inputs Sample) (phase : Phase) (size : Nat),
      act (some (.audio (.oscillator frequency phase rate))) inputs (node.blank .zero size) =
        (some (.audio (.oscillator frequency
            (phase.oscillate rate (Audio.frequencies inputs frequency size)).1 rate)),
          ⟨Audio.atFirst (node.blank .zero size)
            (phase.oscillate rate (Audio.frequencies inputs frequency size)).2, []⟩) := by
    intro inputs phase size
    have hsize : (((node.blank .zero size).head?).getD [] : Buffer Sample).length = size := by
      simp [SignalNode.blank, SignalNode.sizes, houtlets, Buffer.constant]
    simp only [act, perform, Audio.perform, hsize]
    rfl
  have hlength : ∀ (inputs : Inputs Sample) (phase : Phase) (size : Nat),
      (phase.oscillate rate (Audio.frequencies inputs frequency size)).2.length = size :=
    fun inputs phase size =>
      (Phase.length_oscillate rate phase _).trans (Audio.length_frequencies inputs frequency size)
  refine ⟨fun inputs first second hsize => ?_, fun inputs first second hsize => ?_⟩
  · rw [hperform, hperform, Audio.oscillate_frequencies hsize, Outputs.stretch, Audio.stretch_atFirst,
      node.stretch_blank (by omega), Buffer.stretch_append_left (hlength _ phase first)]
    rfl
  · rw [hperform, hperform, hperform, Audio.oscillate_frequencies hsize, Outputs.stretch,
      Audio.stretch_atFirst, node.stretch_blank (Nat.le_refl _),
      Buffer.stretch_append_right (hlength _ phase first) (hlength _ _ second)]
    rfl

/-- An operator computes its signals sample by sample. -/
theorem splits_combine (node : SignalNode) (operator : Operator) (scalar : Sample) :
    Splits act .zero node (some (.audio (.combine operator scalar))) := by
  refine .of_stateless (fun _ _ => rfl) fun inputs found start count hsize => ?_
  simp only [act, perform, Audio.perform, Outputs.stretch, Audio.stretch_atFirst, List.map_nil,
    Audio.isConnected_stretch, Audio.samplesAt_stretch hsize]
  split
  · rw [Audio.stretch_zipWith]
  · rw [Audio.stretch_map]

/-- Channels of the bus are copied sample by sample. -/
theorem splits_input (node : SignalNode) (channels : List Nat) :
    Splits act .zero node (some (.audio (.input channels))) := by
  refine .of_stateless (fun _ _ => rfl) fun inputs found start count hsize => ?_
  simp only [act, perform, Audio.perform, Outputs.stretch, List.length_map, List.map_map,
    List.map_nil, Outputs.mk.injEq, and_true]
  refine List.map_congr_left fun outlet _ => ?_
  have hfound : ((found.map (Buffer.stretch start count))[outlet]?).getD [] =
      ((found[outlet]?).getD []).stretch start count := by
    rw [List.getElem?_map]
    cases found[outlet]? with
    | none => simp [Buffer.stretch]
    | some buffer => rfl
  rw [Function.comp_apply, hfound]
  split
  · rw [Buffer.stretch_overwrite, Audio.channel_stretch hsize]
  · rfl

/-- Signals are put on channels of the bus sample by sample. -/
theorem splits_output (node : SignalNode) (channels : List Nat) :
    Splits act .zero node (some (.audio (.output channels))) := by
  refine .of_stateless (fun _ _ => rfl) fun inputs found start count hsize => ?_
  simp only [act, perform, Audio.perform, Outputs.stretch, List.map_filterMap,
    Audio.isConnected_stretch, Audio.samplesAt_stretch hsize, Outputs.mk.injEq, true_and]
  refine List.filterMap_congr fun entry _ => ?_
  split
  · rfl
  · rfl

/-- The signals of a bench box are multiples of its input, computed sample by sample. -/
theorem splits_bench (node : SignalNode) (state : Bench) :
    Splits act .zero node (some (.bench state)) := by
  refine .of_stateless (fun inputs found => ?_) fun inputs found start count hsize => ?_
  · simp only [act, perform, Bench.perform]
    split <;> rfl
  · simp only [act, perform, Bench.perform, List.length_map]
    split
    · simp only [Outputs.stretch, Audio.samplesAt_stretch hsize, ← Audio.stretch_map,
        List.map_nil, Outputs.mk.injEq, and_true]
      apply List.ext_getElem?
      intro outlet
      simp only [List.getElem?_mapIdx, List.getElem?_map, Option.map_map]
      congr 1
      funext buffer
      exact (Buffer.stretch_overwrite buffer _).symm
    · rfl

/-- A machine computes a block in two parts as it does at once. -/
theorem splits {node : SignalNode} {machine : Machine} (h : machine.signals = node.outlets) :
    Splits act .zero node (some machine) := by
  cases machine with
  | audio state =>
    cases state with
    | oscillator frequency phase rate => exact splits_oscillator h.symm frequency phase rate
    | constant value =>
      refine .of_stateless (fun _ _ => rfl) fun inputs found start count hsize => ?_
      simp only [act, perform, Audio.perform, Outputs.stretch, Audio.stretch_atFirst, List.map_nil,
        Buffer.stretch_constant hsize]
      rfl
    | combine operator scalar => exact splits_combine node operator scalar
    | input channels => exact splits_input node channels
    | output channels => exact splits_output node channels
  | bench state => exact splits_bench node state
  | control state | wireless state | timing state =>
    exact .of_stateless (fun _ _ => rfl) fun _ _ _ _ _ => rfl

end Machine

end Patchbay
