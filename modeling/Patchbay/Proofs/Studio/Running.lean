import Patchbay.Proofs.Patch.Upkeep
import Patchbay.Proofs.Studio.Operation

/-!
# Signal processing keeps up with the patch

Whatever order operations come in, and whether they succeed or not, a patch that runs has the chain that
belongs to its boxes and wires, its rate and its block size, and a patch that does not run has none.
-/

namespace Patchbay

/-- The chain of a patch that is wired well and kept up is missing only because of a cycle. -/
theorem Patch.Upkept.chain_or_cycle {patch : Patch} (h : patch.Upkept) (hwired : patch.Wired)
    (hrunning : patch.engine.running = true) :
    (∃ chain built, patch.engine.chain? = some chain ∧
      Chain.build Sample.zero patch.signalGraph patch.engine.sampleRate patch.engine.blockSize =
        .ok built ∧
      chain.steps = built.steps ∧ chain.blockSize = built.blockSize) ∨
    patch.engine.chain? = none ∧ ¬ patch.signalGraph.Acyclic := by
  rcases h.inStep hrunning with hchain | ⟨hnone, hfail⟩
  · exact Or.inl hchain
  · refine Or.inr ⟨hnone, fun hacyclic => ?_⟩
    have hlength := (SignalGraph.length_order_iff_acyclic hwired.sound.nodup).mpr hacyclic
    exact hfail _ ((Chain.build_eq_ok_iff _ (h.sound.settings hrunning) _).mpr ⟨hlength, rfl⟩)

/-- Its order of execution is that of its signal graph, if there is no cycle. -/
theorem Patch.Upkept.chainOrder?_eq {patch : Patch} (h : patch.Upkept) (hwired : patch.Wired)
    (hrunning : patch.engine.running = true) :
    patch.chainOrder? =
      if patch.signalGraph.order.length = patch.signalGraph.participants.length then
        some patch.signalGraph.order
      else none := by
  have hvalid := h.sound.settings hrunning
  obtain ⟨chain, built, hchain, hbuild, hsteps, -⟩ | ⟨hnone, hcycle⟩ := h.chain_or_cycle hwired hrunning
  · rw [if_pos ((Chain.build_eq_ok_iff _ hvalid _).mp hbuild).1, chainOrder?, hchain, Option.map_some,
      Chain.order, hsteps]
    exact congrArg some (Chain.order_of_build hwired.sound.nodup hvalid hbuild)
  · rw [if_neg (mt (SignalGraph.length_order_iff_acyclic hwired.sound.nodup).mp hcycle), chainOrder?,
      hnone, Option.map_none]

namespace Studio

/-- Whatever is done to a patch that was empty: while it does not run it has no chain. While it runs, its
chain has just the steps of the chain that would be built of its boxes and wires now, or there is none
because of a cycle; every channel of the bus has the size of a block; and all boxes that have to do with
signals are ready for the sample rate. -/
theorem operations_keep_chain (studio : Studio) (number : Nat)
    (hempty : studio.patch? number = some {}) (operations : List Operation) :
    ∃ patch, (studio.operateAll number operations).patch? number = some patch ∧
      (patch.engine.running = false → patch.engine.chain? = none) ∧
      (patch.engine.running = true →
        ((∃ chain built, patch.engine.chain? = some chain ∧
            Chain.build Sample.zero patch.signalGraph patch.engine.sampleRate
              patch.engine.blockSize = .ok built ∧
            chain.steps = built.steps ∧ chain.blockSize = built.blockSize) ∨
          patch.engine.chain? = none ∧ ¬ patch.signalGraph.Acyclic) ∧
        patch.engine.bus.Sized patch.engine.blockSize ∧
        Prepared patch.engine.sampleRate patch.boxes) := by
  have hstart : studio.Reaches number {} := ⟨{}, hempty, .refl⟩
  obtain ⟨patch, hpatch, hchanges⟩ := hstart.operateAll operations
  have hwired := (Patch.wired_of_changes Patch.wired_empty hchanges).1
  have hupkept := Patch.upkept_of_changes Patch.wired_empty Patch.upkept_empty hchanges
  exact ⟨patch, hpatch, hupkept.sound.idle, fun hrunning =>
    ⟨hupkept.chain_or_cycle hwired hrunning, hupkept.sound.sized hrunning,
      hupkept.prepared hrunning⟩⟩

/-- A box that is put in while the patch runs is in the chain at once. -/
theorem operations_keep_chain_fresh :
    ∃ patch chain, (fresh.operateAll 0 [.start 44100.0 64, .createFromText "osc~ 440"]).patch? 0 =
        some patch ∧
      patch.engine.chain? = some chain ∧ chain.order = [0] ∧
      patch.engine.bus.Sized patch.engine.blockSize := by
  obtain ⟨patch, hpatch, -, hkept⟩ :=
    operations_keep_chain fresh 0 rfl [.start 44100.0 64, .createFromText "osc~ 440"]
  have hengine : ((fresh.operateAll 0 [.start 44100.0 64, .createFromText "osc~ 440"]).patch? 0).map
      (fun patch => (patch.engine.running, patch.engine.chain?.map Chain.order)) =
        some (true, some [0]) := by decide +kernel
  rw [hpatch, Option.map_some, Option.some.injEq, Prod.mk.injEq] at hengine
  obtain ⟨hrunning, horder⟩ := hengine
  obtain ⟨chain, hchain, horder⟩ := Option.map_eq_some_iff.mp horder
  exact ⟨patch, chain, hpatch, hchain, horder, (hkept hrunning).2.1⟩

end Studio

end Patchbay
