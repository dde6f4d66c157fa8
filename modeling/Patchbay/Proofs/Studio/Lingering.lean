import Patchbay.Proofs.Patch.Intake
import Patchbay.Proofs.Studio.Sane

/-!
# What lingers on the input channels

A running patch fills up what is handed for an input channel with silence. A channel for which nothing is
handed is not silenced: what was handed for it last is heard once more.
-/

namespace Patchbay.Studio

/-- Take a patch that runs, whatever moves have led to it, and any demands that it has answered since. One
more block with samples for some of its channels comes to the same as one where samples come for all: for
the channels left out those that came last, or else those that were there before. That decides what is
given out, together with the boxes and the wires. So where the channels left out are silent, the block
comes to the same as one with silence for all that is missing. -/
theorem process_hears_what_came_last {patch : Patch} (h : Arises patch)
    (hrunning : patch.engine.running = true) (demands : List Demand) (inputs : List (Buffer Sample))
    (sizes : List Nat) :
    let now := patch.meetAll demands
    let supplied := patch.supplied demands inputs
    now.process Machine.processor inputs sizes = now.process Machine.processor supplied sizes ∧
      (∀ other, Arises other → other.engine.running = true → other.boxes = now.boxes →
        other.connections = now.connections → other.engine.blockSize = now.engine.blockSize →
        other.channels = now.channels →
        (other.process Machine.processor supplied sizes).2 =
            (now.process Machine.processor inputs sizes).2 ∧
          (other.process Machine.processor supplied sizes).1.boxes =
            (now.process Machine.processor inputs sizes).1.boxes) ∧
      ((∀ channel samples, inputs.length ≤ channel → supplied[channel]? = some samples →
          ∀ sample ∈ samples, sample = .zero) →
        now.process Machine.processor inputs sizes =
          now.process Machine.processor
            (Buffer.feed patch.channels.1 patch.engine.blockSize inputs) sizes) := by
  intro now supplied
  have hintact := h.intact
  obtain ⟨hnow, hsame⟩ := hintact.blocks (patch.blocks_meetAll demands)
  have hretains := Patch.retains_meetAll hrunning demands
  have hrunningNow : now.engine.running = true := hretains.running.trans hrunning
  have hfed : (now.engine.bus.setInputs .zero inputs).inputs =
      Buffer.feed patch.channels.1 patch.engine.blockSize supplied :=
    hintact.setInputs_supplied hrunning demands inputs
  -- Samples for as many channels as there are leave on these nothing but themselves.
  have hall : ∀ other : Patch, other.Intact → other.engine.running = true →
      other.engine.blockSize = now.engine.blockSize → other.channels = now.channels →
      ∀ samples : List (Buffer Sample), samples.length = patch.channels.1 →
        (other.engine.bus.setInputs .zero samples).inputs =
          Buffer.feed patch.channels.1 patch.engine.blockSize samples := by
    intro other hother hrunningOther hsize hchannels samples hsamples
    have hcount : other.channels.1 = patch.channels.1 := congrArg Prod.fst (hchannels.trans hsame.channels)
    rw [← hcount, ← hretains.blockSize, ← hsize]
    exact (hother.upkept.sound.sized hrunningOther).setInputs_feed (hcount.trans hsamples.symm).le
  have hsupplied : supplied.length = patch.channels.1 := List.length_mapIdx
  refine ⟨?_, fun other hother hrunningOther hboxes hwires hsize hchannels => ?_, fun hsilent => ?_⟩
  · exact Patch.process_congr (hfed.trans (hall now hnow hrunningNow rfl rfl supplied hsupplied).symm) sizes
  · exact hnow.process_eq hother.intact hrunningNow hrunningOther hboxes hwires hsize hchannels
      ((hall other hother.intact hrunningOther hsize hchannels supplied hsupplied).trans hfed.symm) sizes
  · refine Patch.process_congr (hfed.trans ?_) sizes
    rw [hall now hnow hrunningNow rfl rfl _ (by simp [Buffer.feed]), Buffer.feed_feed]
    exact Patch.Intact.feed_supplied hsilent

/-- An input channel is led straight to an output channel. -/
def through : List Move := [
  .operate 0 (.createFromText "adc~ 1"), .operate 0 (.createFromText "dac~ 1"),
  .operate 0 (.connect 0 0 1 0), .operate 0 (.start 44100.0 2)]

/-- One sample for the first channel comes to the same as two for each of both channels, the others being
silent, whatever the first channel got before. -/
theorem process_hears_what_came_last_through : ∃ patch, (fresh.moveAll through).patch? 0 = some patch ∧
    let now := patch.meetAll [.process [[.zero, .one]] [2], .tick]
    now.process Machine.processor [[.one]] [2] =
      now.process Machine.processor [[.one, .zero], [.zero, .zero]] [2] := by
  obtain ⟨patch, hpatch, hfacts⟩ := Option.map_eq_some_iff.mp
    (by decide +kernel : ((fresh.moveAll through).patch? 0).map
        (fun patch => (patch.engine.running, patch.engine.blockSize, patch.engine.bus.inputs)) =
      some (true, 2, [[.zero, .zero], [.zero, .zero]]))
  simp only [Prod.mk.injEq] at hfacts
  obtain ⟨hrunning, hsize, hinputs⟩ := hfacts
  obtain ⟨-, -, hsilent⟩ := process_hears_what_came_last (arises_of_fresh hpatch) hrunning
    [.process [[.zero, .one]] [2], .tick] [[.one]] [2]
  have hfeed : Buffer.feed patch.channels.1 patch.engine.blockSize [[.one]] =
      [[.one, .zero], [.zero, .zero]] := by
    rw [Patch.channels, hinputs, hsize]
    rfl
  have hsupplied : patch.supplied [.process [[.zero, .one]] [2], .tick] [[.one]] =
      [[.one], [.zero, .zero]] := by
    rw [Patch.supplied, Bus.heard, hinputs]
    rfl
  refine ⟨patch, hpatch, hfeed ▸ hsilent fun channel samples hchannel hsamples => ?_⟩
  rw [hsupplied] at hsamples
  obtain ⟨hbound, rfl⟩ := List.getElem?_eq_some_iff.mp hsamples
  obtain rfl : channel = 1 := Nat.le_antisymm (Nat.le_of_lt_succ hbound) hchannel
  show ∀ sample ∈ [Sample.zero, Sample.zero], sample = .zero
  decide

/-- If no samples come, those that came before are given out once more, and not silence. -/
theorem process_hears_what_came_before : ∃ patch, Arises patch ∧ patch.engine.running = true ∧
    let now := patch.meetAll [.process [[.one, .one]] [2]]
    (now.process Machine.processor [] [2]).2 = (true, [[.one, .one]]) ∧
      (now.process Machine.processor
        (Buffer.feed patch.channels.1 patch.engine.blockSize []) [2]).2 = (true, [[.zero, .zero]]) := by
  let given (patch : Patch) (inputs : List (Buffer Sample)) :=
    ((patch.meetAll [.process [[.one, .one]] [2]]).process Machine.processor inputs [2]).2
  obtain ⟨patch, hpatch, hfacts⟩ := Option.map_eq_some_iff.mp
    (by decide +kernel : ((fresh.moveAll through).patch? 0).map (fun patch => (patch.engine.running,
        given patch [], given patch (Buffer.feed patch.channels.1 patch.engine.blockSize []))) =
      some (true, (true, [[.one, .one]]), true, [[.zero, .zero]]))
  obtain ⟨hrunning, hgiven⟩ := Prod.mk.inj hfacts
  obtain ⟨hbefore, hsilence⟩ := Prod.mk.inj hgiven
  exact ⟨patch, arises_of_fresh hpatch, hrunning, hbefore, hsilence⟩

end Patchbay.Studio
