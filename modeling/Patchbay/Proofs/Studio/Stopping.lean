import Patchbay.Proofs.Patch.Releasing
import Patchbay.Proofs.Studio.LiveEdits

/-!
# Stopping

What a stop does to the boxes of a patch that runs, whatever has been done to the patch before. Without a
cycle of signal wires all boxes go back to the start. With one there is no chain to be released, and the
boxes stay where the last blocks have left them.
-/

namespace Patchbay

/-- Decide whether the box is an oscillator that has lost its place. -/
def Box.isLost (box : Box) : Bool :=
  match box.machine with
  | .audio (.oscillator _ (.lost _) _) => true
  | _ => false

namespace Studio

variable {studio : Studio}

/-- Take any patch that runs, whatever moves have led to it from a studio of empty patches. If its signal
wires form no cycle, all its boxes are released when it is stopped: each oscillator is at the start of a
turn, and however many blocks are computed before the stop, the patch starts as if there had been none.
If they form a cycle, no box is released. -/
theorem stop_releases (hempty : ∀ number patch, studio.patch? number = some patch → patch = {})
    (moves : List Move) {number : Nat} {patch : Patch}
    (hpatch : (studio.moveAll moves).patch? number = some patch)
    (hrunning : patch.engine.running = true) :
    (patch.signalGraph.Acyclic →
      patch.stop.boxes = patch.boxes.map Box.released ∧
      (∀ box ∈ patch.stop.boxes, ∀ frequency phase rate,
        box.machine = .audio (.oscillator frequency phase rate) → phase = .start) ∧
      ∀ later, Relation.ReflTransGen Patch.Block patch later → ∀ sampleRate blockSize,
        Chain.validSettings sampleRate blockSize = true →
        later.stop.start sampleRate blockSize = patch.stop.start sampleRate blockSize) ∧
    (¬patch.signalGraph.Acyclic → patch.stop.boxes = patch.boxes) := by
  have hstart : studio.Sane := fun place found hfound => hempty place found hfound ▸ .empty
  have hintact : patch.Intact := hstart.moveAll moves number patch hpatch
  refine ⟨fun hacyclic => ?_, hintact.boxes_stop_of_cycle hrunning⟩
  have hboxes := hintact.boxes_stop hrunning hacyclic
  refine ⟨hboxes, fun box hbox frequency phase rate hmachine => ?_,
    fun later hblocks sampleRate blockSize hvalid => ?_⟩
  · rw [hboxes] at hbox
    obtain ⟨old, -, rfl⟩ := List.mem_map.mp hbox
    exact Machine.phase_of_release hmachine
  · obtain ⟨hintactLater, hsame⟩ := hintact.blocks hblocks
    exact hsame.start_stop hintact hintactLater hrunning hacyclic hvalid

/-- An oscillator gets a frequency that is no number, and loses its place in the first block. Two
multiplications stand aside. -/
def astray : List Move := [
  .operate 0 (.create [("name", [.symbol "osc~"]), ("arguments", [.double (0.0 / 0.0) true])]),
  .operate 0 (.createFromText "*~"), .operate 0 (.createFromText "*~"),
  .operate 0 (.start 44100.0 1), .operate 0 .tick]

/-- It is back at the start when the patch is stopped, and one more block would make no difference. -/
theorem stop_releases_astray : ∃ patch, (fresh.moveAll astray).patch? 0 = some patch ∧
    patch.boxes.any Box.isLost = true ∧ patch.stop.boxes = patch.boxes.map Box.released ∧
    (∀ box ∈ patch.stop.boxes, ∀ frequency phase rate,
      box.machine = .audio (.oscillator frequency phase rate) → phase = .start) ∧
    (patch.tick Machine.processor).1.stop.start 48000.0 2 = patch.stop.start 48000.0 2 := by
  let facts (patch : Patch) := (patch.engine.running, patch.boxes.any Box.isLost,
    patch.signalGraph.nodes.map SignalNode.id, patch.signalGraph.order.length,
    patch.signalGraph.participants.length)
  obtain ⟨patch, hpatch, hfacts⟩ := Option.map_eq_some_iff.mp
    (by decide +kernel : ((fresh.moveAll astray).patch? 0).map facts =
      some (true, true, [0, 1, 2], 3, 3))
  simp only [facts, Prod.mk.injEq] at hfacts
  obtain ⟨hrunning, hlost, hids, horder, hparticipants⟩ := hfacts
  have hacyclic : patch.signalGraph.Acyclic :=
    (SignalGraph.length_order_iff_acyclic (hids ▸ by decide)).mp (horder.trans hparticipants.symm)
  have hempty : ∀ number patch, fresh.patch? number = some patch → patch = {} :=
    fun _ _ hfound => eq_empty_of_fresh hfound
  obtain ⟨hboxes, hphases, hblocks⟩ := (stop_releases hempty astray hpatch hrunning).1 hacyclic
  exact ⟨patch, hpatch, hlost, hboxes, hphases,
    hblocks _ (.single (.tick patch)) 48000.0 2 (by decide +kernel)⟩

/-- If the two multiplications are joined to a circle before the stop, it stays lost. -/
theorem stop_in_circle_releases_nothing : ∃ patch,
    (fresh.moveAll (astray ++ [.operate 0 (.connect 1 0 2 0), .operate 0 (.connect 2 0 1 0),
      .operate 0 .stop])).patch? 0 = some patch ∧
    patch.engine.running = false ∧ patch.boxes.any Box.isLost = true := by
  obtain ⟨patch, hpatch, hfacts⟩ := Option.map_eq_some_iff.mp
    (by decide +kernel : ((fresh.moveAll (astray ++ [.operate 0 (.connect 1 0 2 0),
        .operate 0 (.connect 2 0 1 0), .operate 0 .stop])).patch? 0).map
        (fun patch => (patch.engine.running, patch.boxes.any Box.isLost)) = some (false, true))
  obtain ⟨hidle, hlost⟩ := Prod.mk.inj hfacts
  exact ⟨patch, hpatch, hidle, hlost⟩

end Studio

end Patchbay
