import Patchbay.Proofs.Patch.Wired

/-!
# Changes of a patch

All that can happen to a patch from outside, one thing at a time. Building a box takes two things: a
number is given out, and then a box of that number is put in, or none if it could not be built.
-/

namespace Patchbay.Patch

/-- A patch becomes another by one operation. -/
inductive Change : Patch → Patch → Prop where
  | reserve (patch : Patch) : Change patch patch.reserve.1
  | install (patch : Patch) (box : Box) (hid : box.id = patch.nextId) :
    Change patch (patch.reserve.1.install box)
  | remove {patch later : Patch} (id : Nat) (h : patch.remove id = .ok later) : Change patch later
  | clear (patch : Patch) : Change patch patch.clear
  | connect {patch later : Patch} (source outlet target inlet : Nat)
    (h : patch.connect source outlet target inlet = .ok later) : Change patch later
  | disconnect {patch later : Patch} (source outlet target inlet : Nat)
    (h : patch.disconnect source outlet target inlet = .ok later) : Change patch later
  | setChannels (patch : Patch) (inputs outputs : Nat) :
    Change patch (patch.setChannels inputs outputs)
  | start (patch : Patch) (sampleRate : Float32) (blockSize : Nat) :
    Change patch (patch.start sampleRate blockSize).1
  | stop (patch : Patch) : Change patch patch.stop
  | tick (patch : Patch) : Change patch (patch.tick Machine.processor).1
  | process (patch : Patch) (inputs : List (Buffer Sample)) (sizes : List Nat) :
    Change patch (patch.process Machine.processor inputs sizes).1

/-- Other numbers of channels leave the wiring as it is. -/
theorem sameWiring_setChannels (patch : Patch) (inputs outputs : Nat) :
    patch.SameWiring (patch.setChannels inputs outputs) := ⟨rfl, rfl, rfl⟩

/-- Computing a block leaves the wiring as it is, and does not touch what has not been started. -/
theorem sameWiring_tick {patch : Patch} (hids : patch.ids.Nodup) :
    patch.SameWiring (patch.tick Machine.processor).1 := by
  unfold tick
  split
  · exact sameWiring_runBlock hids
  · exact .refl patch

/-- So does computing a block with samples from outside. -/
theorem sameWiring_process {patch : Patch} (hids : patch.ids.Nodup)
    (inputs : List (Buffer Sample)) (sizes : List Nat) :
    patch.SameWiring (patch.process Machine.processor inputs sizes).1 := by
  unfold process
  split
  · have hrun : SameWiring { patch with
        engine := { patch.engine with
          bus := patch.engine.bus.setInputs Machine.processor.zero inputs } } _ :=
      sameWiring_runBlock hids
    exact ⟨hrun.faces, hrun.connections, hrun.nextId⟩
  · exact .refl patch

namespace Change

variable {patch later : Patch}

/-- No change breaks the wires. -/
theorem wired (h : patch.Change later) (hwired : patch.Wired) : later.Wired := by
  cases h with
  | reserve => exact hwired.reserve
  | install box hid => exact hwired.install hid
  | remove id h =>
    obtain ⟨box, -, rfl⟩ := remove_eq_ok h
    exact (sameWiring_retire _ _).wired ((sameWiring_rebuildIf _ _).wired (hwired.without _))
  | clear => exact .clear patch
  | connect source outlet target inlet h =>
    obtain ⟨signal, hsignal, rfl⟩ := connect_eq_ok h
    obtain ⟨hsits, hfree⟩ := checkConnection_eq_ok hsignal
    exact (sameWiring_rebuildIf _ _).wired (hwired.withWire hsits hfree)
  | disconnect source outlet target inlet h =>
    obtain ⟨wire, -, rfl⟩ := disconnect_eq_ok h
    exact (sameWiring_rebuildIf _ _).wired (hwired.withoutWire _ _ _ _)
  | setChannels inputs outputs => exact (sameWiring_setChannels patch inputs outputs).wired hwired
  | start sampleRate blockSize => exact (sameWiring_start patch sampleRate blockSize).wired hwired
  | stop => exact patch.sameWiring_stop.wired hwired
  | tick => exact (sameWiring_tick hwired.nodup).wired hwired
  | process inputs sizes => exact (sameWiring_process hwired.nodup inputs sizes).wired hwired

/-- What comes of a change goes on with the same boxes, or with new numbers. -/
theorem continues (h : patch.Change later) (hids : patch.ids.Nodup) : patch.Continues later := by
  cases h with
  | reserve => exact ⟨Nat.le_succ _, fun box hbox _ => ⟨box, hbox, rfl⟩⟩
  | install box hid =>
    refine Continues.trans ⟨Nat.le_succ _, ?_⟩ (sameWiring_rebuildIf _ _).continues
    intro other hother hold
    rcases List.mem_append.mp hother with hmem | hmem
    · exact ⟨other, hmem, rfl⟩
    · obtain rfl := List.mem_singleton.mp hmem
      exact absurd hid hold.ne
  | remove id h =>
    obtain ⟨box, -, rfl⟩ := remove_eq_ok h
    have hcut : patch.Continues (patch.without id) := .of_subset List.filter_sublist.subset rfl
    exact (hcut.trans (sameWiring_rebuildIf _ _).continues).trans (sameWiring_retire _ _).continues
  | clear =>
    have hemptied : patch.Continues { patch with boxes := [], connections := [] } :=
      .of_subset (List.nil_subset _) rfl
    exact (hemptied.trans (sameWiring_rebuildIf _ true).continues).trans
      (sameWiring_retire _ _).continues
  | connect source outlet target inlet h =>
    obtain ⟨signal, -, rfl⟩ := connect_eq_ok h
    have hwired : patch.Continues (patch.withWire ⟨source, outlet, target, inlet, signal⟩) :=
      .of_subset (List.Subset.refl _) rfl
    exact hwired.trans (sameWiring_rebuildIf _ _).continues
  | disconnect source outlet target inlet h =>
    obtain ⟨wire, -, rfl⟩ := disconnect_eq_ok h
    have hcut : patch.Continues (patch.withoutWire source outlet target inlet) :=
      .of_subset (List.Subset.refl _) rfl
    exact hcut.trans (sameWiring_rebuildIf _ _).continues
  | setChannels inputs outputs => exact (sameWiring_setChannels patch inputs outputs).continues
  | start sampleRate blockSize => exact (sameWiring_start patch sampleRate blockSize).continues
  | stop => exact patch.sameWiring_stop.continues
  | tick => exact (sameWiring_tick hids).continues
  | process inputs sizes => exact (sameWiring_process hids inputs sizes).continues

end Change

/-- An empty patch is wired well. -/
theorem wired_empty : Wired {} := ⟨.nil, by simp [ids], by simp, .nil⟩

/-- Changes one after the other break no wire, and never give out a number again. -/
theorem wired_of_changes {patch later : Patch} (hwired : patch.Wired)
    (h : Relation.ReflTransGen Change patch later) : later.Wired ∧ patch.Continues later := by
  induction h with
  | refl => exact ⟨hwired, (SameWiring.refl patch).continues⟩
  | tail _ hchange ih =>
    exact ⟨hchange.wired ih.1, ih.2.trans (hchange.continues ih.1.nodup)⟩

end Patchbay.Patch
