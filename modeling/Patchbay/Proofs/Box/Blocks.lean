import Patchbay.Patch.Running
import Patchbay.Proofs.Signal.InPlace

/-!
# What boxes do with a block

A box that takes part in signal processing writes over the whole buffer of each outlet that puts out a
signal, and a product of signals can be computed in place. So the boxes of a patch keep to the laws
under which working in place makes no difference.

The profile of a machine is what signal processing is arranged by. No block changes it.
-/

namespace Patchbay

/-- A buffer that is written over keeps its size. -/
theorem Buffer.length_overwrite {σ : Type} (buffer samples : Buffer σ) :
    (buffer.overwrite samples).length = buffer.length := by
  simp only [overwrite, List.length_append, List.length_take, List.length_drop]
  omega

/-- Nothing is left in a buffer that is written over by as many samples. -/
theorem Buffer.overwrite_of_le {σ : Type} {buffer samples : Buffer σ}
    (hsize : buffer.length ≤ samples.length) :
    buffer.overwrite samples = samples.take buffer.length := by
  rw [overwrite, List.drop_eq_nil_of_le hsize, List.append_nil]

/-- Samples can be brought to any size. -/
theorem Buffer.length_fit {σ : Type} (size : Nat) (filler : σ) (samples : Buffer σ) :
    (Buffer.fit size filler samples).length = size := by
  simp only [fit, List.length_append, List.length_take, List.length_replicate]
  omega

/-- An oscillator gives a sample for every frequency. -/
theorem Phase.length_oscillate (rate : Float) (phase : Phase) (frequencies : List Sample) :
    (phase.oscillate rate frequencies).2.length = frequencies.length := by
  induction frequencies generalizing phase with
  | nil => rfl
  | cons frequency rest ih => simp only [oscillate, List.length_cons, ih]

namespace Audio

/-- For every outlet of an audio box, that it puts out a signal. -/
def signals : Audio → List Bool
  | .constant _ | .oscillator .. | .combine .. => [true]
  | .input channels => channels.map fun _ => true
  | .output _ => []

/-- What an inlet reads fills a block. -/
theorem length_samplesAt {inputs : Inputs Sample} {blockSize : Nat} (h : inputs.Sized blockSize)
    (inlet : Nat) : (samplesAt inputs inlet).length = blockSize := by
  unfold samplesAt
  cases hsignal : (inputs.inlets[inlet]?).join with
  | none => simp [Buffer.constant, h.size]
  | some signal =>
    rw [Option.join_eq_some_iff] at hsignal
    exact h.inlets signal (List.mem_of_getElem? hsignal)

/-- What is read from a channel fills a block. -/
theorem length_channel {inputs : Inputs Sample} {blockSize : Nat} (h : inputs.Sized blockSize)
    (channel : Nat) :
    (inputs.channels[channel]?.getD (Buffer.constant inputs.blockSize .zero)).length =
      blockSize := by
  cases hsignal : inputs.channels[channel]? with
  | none => simp [Buffer.constant, h.size]
  | some signal => exact h.channels signal (List.mem_of_getElem? hsignal)

/-- Writing over the first buffer leaves all at their sizes. -/
theorem sizes_atFirst (buffers : List (Buffer Sample)) (samples : Buffer Sample) :
    Buffer.sizes (atFirst buffers samples) = Buffer.sizes buffers := by
  cases buffers with
  | nil => rfl
  | cons buffer rest => simp [atFirst, Buffer.sizes, Buffer.length_overwrite]

/-- A single buffer holds just the samples that are written over it, if they are enough. -/
theorem atFirst_eq {buffers : List (Buffer Sample)} {samples : Buffer Sample} {size : Nat}
    (hbuffers : Buffer.sizes buffers = [size]) (hsamples : size ≤ samples.length) :
    atFirst buffers samples = [samples.take size] := by
  match buffers with
  | [buffer] =>
    obtain rfl : buffer.length = size := by simpa [Buffer.sizes] using hbuffers
    simp [atFirst, Buffer.overwrite_of_le hsamples]
  | [] => simp [Buffer.sizes] at hbuffers
  | _ :: _ :: _ => simp [Buffer.sizes] at hbuffers

/-- An audio box leaves its buffers at their sizes. -/
theorem sizes_perform (inputs : Inputs Sample) (buffers : List (Buffer Sample)) (audio : Audio) :
    Buffer.sizes (audio.perform inputs buffers).2.outlets = Buffer.sizes buffers := by
  cases audio with
  | constant value => exact sizes_atFirst _ _
  | oscillator frequency phase rate => exact sizes_atFirst _ _
  | combine operator scalar => exact sizes_atFirst _ _
  | output channels => rfl
  | input channels =>
    apply List.ext_getElem?
    intro outlet
    simp only [perform, Buffer.sizes, List.map_map, List.getElem?_map]
    by_cases hbound : outlet < buffers.length
    · simp only [List.getElem?_range hbound, List.getElem?_eq_getElem hbound, Option.map_some,
        Function.comp_apply, Option.getD_some]
      cases channels[outlet]? <;> simp [Buffer.length_overwrite]
    · simp [hbound]

/-- What an audio box does is not affected by what it finds in the buffers of its outlets. -/
theorem perform_eq_of_sizes {inputs : Inputs Sample} {blockSize : Nat}
    (hinputs : inputs.Sized blockSize) {audio : Audio} {found other : List (Buffer Sample)}
    (hfound : Buffer.sizes found = audio.signals.map fun signal => if signal then blockSize else 0)
    (hother : Buffer.sizes other = audio.signals.map fun signal => if signal then blockSize else 0) :
    audio.perform inputs found = audio.perform inputs other := by
  cases audio with
  | constant value =>
    have hsize : blockSize ≤ (Buffer.constant inputs.blockSize value).length := by
      simp [Buffer.constant, hinputs.size]
    simp only [perform, atFirst_eq hfound hsize, atFirst_eq hother hsize]
  | oscillator frequency phase rate =>
    have hhead : ∀ buffers : List (Buffer Sample), Buffer.sizes buffers = [blockSize] →
        ((buffers.head?).getD []).length = blockSize := by
      intro buffers hbuffers
      cases buffers with
      | nil => simp [Buffer.sizes] at hbuffers
      | cons buffer rest => simpa [Buffer.sizes] using (List.cons.inj hbuffers).1
    simp only [perform, hhead found hfound, hhead other hother]
    rw [atFirst_eq hfound, atFirst_eq hother] <;>
      (rw [Phase.length_oscillate]; split <;> simp [Buffer.length_fit])
  | combine operator scalar =>
    have hleft := length_samplesAt hinputs 0
    have hright := length_samplesAt hinputs 1
    simp only [perform]
    rw [atFirst_eq hfound, atFirst_eq hother] <;> (split <;> simp [hleft, hright])
  | output channels =>
    have hnil : ∀ buffers : List (Buffer Sample), Buffer.sizes buffers = [] → buffers = [] := by
      intro buffers hbuffers
      simpa [Buffer.sizes] using hbuffers
    rw [hnil found hfound, hnil other hother]
  | input channels =>
    have hlength : found.length = other.length := by
      simpa [Buffer.sizes] using congrArg List.length (hfound.trans hother.symm)
    simp only [perform, hlength]
    congr 2
    refine List.map_congr_left fun outlet houtlet => ?_
    have hbound : outlet < channels.length := by
      have hchannels : other.length = channels.length := by
        simpa [Buffer.sizes, signals] using congrArg List.length hother
      simpa [hchannels] using houtlet
    have hsize : ∀ buffers : List (Buffer Sample), Buffer.sizes buffers =
        (input channels).signals.map (fun signal => if signal then blockSize else 0) →
        ((buffers[outlet]?).getD []).length = blockSize := by
      intro buffers hbuffers
      have hat := congrArg (fun sizes => sizes[outlet]?) hbuffers
      simp only [Buffer.sizes, signals, List.map_map, List.getElem?_map,
        List.getElem?_eq_getElem hbound, Option.map_some] at hat
      obtain ⟨buffer, hbuffer, hlength⟩ := Option.map_eq_some_iff.mp hat
      simpa [hbuffer] using hlength
    have hchannel := length_channel hinputs channels[outlet]
    simp only [List.getElem?_eq_getElem hbound]
    rw [Buffer.overwrite_of_le (by rw [hsize found hfound, hchannel]),
      Buffer.overwrite_of_le (by rw [hsize other hother, hchannel]), hsize found hfound,
      hsize other hother]

end Audio

namespace Bench

/-- A bench box leaves its buffers at their sizes. -/
theorem sizes_perform (inputs : Inputs Sample) (buffers : List (Buffer Sample)) (bench : Bench) :
    Buffer.sizes (bench.perform inputs buffers).2.outlets = Buffer.sizes buffers := by
  unfold perform
  split
  · apply List.ext_getElem?
    intro outlet
    simp only [Buffer.sizes, List.getElem?_map, List.getElem?_mapIdx, Option.map_map]
    congr 1
    funext buffer
    exact Buffer.length_overwrite _ _
  · rfl

/-- What a bench box that takes part does is not affected by what it finds in the buffers of its
outlets. -/
theorem perform_eq_of_sizes {inputs : Inputs Sample} {blockSize : Nat}
    (hinputs : inputs.Sized blockSize) {bench : Bench} (hready : bench.isReady = true)
    {found other : List (Buffer Sample)} (hsame : Buffer.sizes found = Buffer.sizes other)
    (hfound : ∀ buffer ∈ found, buffer.length ≤ blockSize) :
    bench.perform inputs found = bench.perform inputs other := by
  have hlength : found.length = other.length := by
    simpa [Buffer.sizes] using congrArg List.length hsame
  simp only [perform, hready, if_true, hlength]
  congr 2
  apply List.ext_getElem?
  intro outlet
  have hat : found[outlet]?.map List.length = other[outlet]?.map List.length := by
    simpa only [Buffer.sizes, List.getElem?_map] using congrArg (fun sizes => sizes[outlet]?) hsame
  simp only [List.getElem?_mapIdx]
  cases hbuffer : found[outlet]? with
  | none =>
    have hnone : other[outlet]? = none := by simpa [hbuffer, eq_comm] using hat
    rw [hnone]
  | some buffer =>
    obtain ⟨counterpart, hcounterpart, hsize⟩ :=
      Option.map_eq_some_iff.mp (hat.symm.trans (by rw [hbuffer, Option.map_some]))
    have henough := hfound buffer (List.mem_of_getElem? hbuffer)
    have hsamples := Audio.length_samplesAt hinputs 0
    rw [hcounterpart, Option.map_some, Option.map_some, Buffer.overwrite_of_le (by simpa [hsamples]),
      Buffer.overwrite_of_le (by simpa [hsamples, hsize]), hsize]

end Bench

namespace Machine

/-- For every outlet of a machine that takes part in signal processing, whether it puts out a
signal. -/
def signals : Machine → List Bool
  | audio state => state.signals
  | bench .twin => [true, true]
  | bench .late => [false, true]
  | _ => []

/-- What signal processing is arranged by: whether the machine takes part, whether it can work in
place, and which of its outlets put out signals. -/
def profile (machine : Machine) : Bool × Bool × List Bool :=
  (machine.isReady, machine.worksInPlace, machine.signals)

/-- A block leaves the profile as it is. -/
theorem profile_perform (inputs : Inputs Sample) (buffers : List (Buffer Sample))
    (machine : Machine) : (machine.perform inputs buffers).1.profile = machine.profile := by
  cases machine with
  | audio state => cases state <;> rfl
  | bench state =>
    simp only [perform, Bench.perform]
    split <;> rfl
  | control state => rfl
  | wireless state => rfl
  | timing state => rfl

/-- A block computed in place leaves the profile as it is. -/
theorem profile_performInPlace (buffer : Buffer Sample) (machine : Machine) :
    (machine.performInPlace buffer).1.profile = machine.profile := by
  cases machine with
  | audio state => cases state <;> rfl
  | bench state => rfl
  | control state => rfl
  | wireless state => rfl
  | timing state => rfl

/-- A machine leaves its buffers at their sizes. -/
theorem sizes_perform (inputs : Inputs Sample) (buffers : List (Buffer Sample))
    (machine : Machine) :
    Buffer.sizes (machine.perform inputs buffers).2.outlets = Buffer.sizes buffers := by
  cases machine with
  | audio state => exact Audio.sizes_perform inputs buffers state
  | bench state => exact Bench.sizes_perform inputs buffers state
  | control state => rfl
  | wireless state => rfl
  | timing state => rfl

/-- A machine leaves the buffer that it changes in place at its size. -/
theorem length_performInPlace (buffer : Buffer Sample) (machine : Machine) :
    (machine.performInPlace buffer).2.length = buffer.length := by
  cases machine with
  | audio state => cases state <;> simp [performInPlace, Audio.performInPlace]
  | bench state => rfl
  | control state => rfl
  | wireless state => rfl
  | timing state => rfl

/-- What a machine does that takes part is not affected by what it finds in the buffers of its
outlets. -/
theorem perform_eq_of_sizes {inputs : Inputs Sample} {blockSize : Nat}
    (hinputs : inputs.Sized blockSize) {machine : Machine} (hready : machine.isReady = true)
    {found other : List (Buffer Sample)}
    (hfound : Buffer.sizes found =
      machine.signals.map fun signal => if signal then blockSize else 0)
    (hother : Buffer.sizes other =
      machine.signals.map fun signal => if signal then blockSize else 0) :
    machine.perform inputs found = machine.perform inputs other := by
  cases machine with
  | audio state => simp only [perform, Audio.perform_eq_of_sizes hinputs hfound hother]
  | bench state =>
    have hsmall : ∀ buffer ∈ found, buffer.length ≤ blockSize := by
      intro buffer hbuffer
      have hmem : buffer.length ∈ Buffer.sizes found := List.mem_map_of_mem hbuffer
      rw [hfound] at hmem
      obtain ⟨signal, -, hsize⟩ := List.mem_map.mp hmem
      split at hsize <;> omega
    simp only [perform, Bench.perform_eq_of_sizes hinputs hready (hfound.trans hother.symm) hsmall]
  | control state => cases hready
  | wireless state => cases hready
  | timing state => cases hready

/-- A machine that can work in place, and puts out one signal at its first outlet, does in place what
it does with that signal at its first inlet and nothing at the others. -/
theorem perform_eq_performInPlace {machine : Machine} {others : List Bool}
    (hable : machine.worksInPlace = true) (hfirst : machine.signals = true :: others)
    (hsilent : ∀ signal ∈ others, signal = false) {blockSize : Nat} {signal : Buffer Sample}
    (hsignal : signal.length = blockSize) (inlets : Nat) (channels : List (Buffer Sample))
    {found : List (Buffer Sample)}
    (hfound : Buffer.sizes found =
      machine.signals.map fun signal => if signal then blockSize else 0) :
    machine.perform ⟨some signal :: List.replicate inlets none, channels, blockSize⟩ found =
      ((machine.performInPlace signal).1, ⟨found.set 0 (machine.performInPlace signal).2, []⟩) := by
  cases machine with
  | audio state =>
    cases state with
    | combine operator scalar =>
      have hunconnected : Audio.isConnected ⟨some signal :: List.replicate inlets none, channels,
          blockSize⟩ 1 = false := by
        cases inlets <;> simp [Audio.isConnected]
      have hsize : blockSize ≤ (signal.map fun x => operator.applySample x scalar).length := by
        simp [hsignal]
      have hset : found.set 0 (signal.map fun x => operator.applySample x scalar) =
          [signal.map fun x => operator.applySample x scalar] := by
        cases found with
        | nil => simp [Buffer.sizes, signals, Audio.signals] at hfound
        | cons buffer rest =>
          obtain ⟨-, rfl⟩ : _ ∧ rest = [] := by
            simpa [Buffer.sizes, signals, Audio.signals] using hfound
          rfl
      simp only [perform, Audio.perform, performInPlace, Audio.performInPlace, hunconnected,
        Audio.samplesAt, List.getElem?_cons_zero, Option.join_some, Option.getD_some, hset]
      rw [if_neg Bool.false_ne_true, Audio.atFirst_eq hfound hsize,
        List.take_of_length_le (by simp [hsignal])]
    | constant value => cases hable
    | oscillator frequency phase rate => cases hable
    | input inputs => cases hable
    | output outputs => cases hable
  | bench state =>
    cases state with
    | twin =>
      obtain rfl : [true] = others := (List.cons.inj hfirst).2
      exact absurd (hsilent true List.mem_cons_self) (by decide)
    | late => exact absurd (List.cons.inj hfirst).1 (by decide)
    | idle => cases hable
    | agent => cases hable
    | panel message => cases hable
  | control state => cases hable
  | wireless state => cases hable
  | timing state => cases hable

end Machine

end Patchbay
