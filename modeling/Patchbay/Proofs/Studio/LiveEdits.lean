import Patchbay.Proofs.Patch.Audible
import Patchbay.Proofs.Studio.Building
import Patchbay.Proofs.Studio.Sane

/-!
# Edits while signal processing runs

Boxes and wires may be edited while a patch runs. Each edit that touches the signal part makes the chain
anew: all buffers are new, all boxes get ready again, they may be performed in another order, and others
of them may work in place. As long as the edit stays away from what can be heard, nothing of this shows
on the output channels, in no block to come.
-/

namespace Patchbay

/-- Decide whether an operation edits boxes or wires one at a time. -/
def Operation.isEdit : Operation → Bool
  | create _ | createFromText _ | remove _ | connect _ _ _ _ | disconnect _ _ _ _ => true
  | _ => false

namespace Patch

variable {patch later : Patch}

/-- Nothing comes of no edit. -/
theorem Retouched.refl (patch : Patch) : patch.Retouched patch :=
  ⟨fun _ => Or.inl, Or.inl (List.Sublist.refl _), rfl⟩

/-- Nothing but a number is taken by a box that could not be built. -/
theorem retouched_reserve (patch : Patch) : patch.Retouched patch.reserve.1 :=
  ⟨fun _ => Or.inl, Or.inl (List.Sublist.refl _), rfl⟩

namespace Intact

/-- A box may be put in. -/
theorem retouched_install (h : patch.Intact) {box : Box} (hid : box.id = patch.nextId) :
    patch.Retouched (patch.reserve.1.install box) := by
  refine h.retouched box.hasSignals rfl (fun other hother => ?_) (Or.inl (List.Sublist.refl _))
  rcases List.mem_append.mp hother with hold | hnew
  · exact Or.inl hold
  · obtain rfl := List.mem_singleton.mp hnew
    exact Or.inr hid.ge

/-- A box may be taken out. -/
theorem retouched_remove (h : patch.Intact) {id : Nat} (hremove : patch.remove id = .ok later) :
    patch.Retouched later := by
  obtain ⟨box, -, rfl⟩ := remove_eq_ok hremove
  have hedited : patch.Retouched ((patch.without id).rebuildIf box.hasSignals) :=
    h.retouched box.hasSignals rfl (fun _ hother => Or.inl (List.mem_of_mem_filter hother))
      (Or.inl List.filter_sublist)
  exact ⟨hedited.boxes, hedited.connections, hedited.engine⟩

/-- A wire may be drawn. -/
theorem retouched_connect (h : patch.Intact) {source outlet target inlet : Nat}
    (hconnect : patch.connect source outlet target inlet = .ok later) : patch.Retouched later := by
  obtain ⟨signal, -, rfl⟩ := connect_eq_ok hconnect
  exact h.retouched signal rfl (fun _ => Or.inl) (Or.inr (List.sublist_append_left _ _))

/-- A wire may be taken away. -/
theorem retouched_disconnect (h : patch.Intact) {source outlet target inlet : Nat}
    (hdisconnect : patch.disconnect source outlet target inlet = .ok later) :
    patch.Retouched later := by
  obtain ⟨wire, -, rfl⟩ := disconnect_eq_ok hdisconnect
  exact h.retouched wire.signal rfl (fun _ => Or.inl) (Or.inl List.eraseP_sublist)

end Intact

end Patch

namespace Studio

variable {studio : Studio} {number : Nat} {patch later : Patch}

/-- An edit that is refused leaves the patch as it is, and any other puts its result there. -/
theorem patch?_editPatch_cases (hpatch : studio.patch? number = some patch)
    {edit : Patch → Except PatchError Patch}
    (hlater : (studio.editPatch number edit).1.patch? number = some later) :
    later = patch ∨ edit patch = .ok later := by
  cases hedit : edit patch with
  | error error =>
    simp only [editPatch, hpatch, hedit, Option.some.injEq] at hlater
    exact Or.inl hlater.symm
  | ok other =>
    rw [patch?_editPatch hpatch hedit, Option.some.injEq] at hlater
    exact Or.inr (congrArg Except.ok hlater)

/-- Building a box retouches the patch at most. -/
theorem retouched_create (hpatch : studio.patch? number = some patch) (hintact : patch.Intact)
    {detail : Dico} (hlater : (studio.create number detail).1.patch? number = some later) :
    patch.Retouched later := by
  rcases create_inversion hpatch detail with ⟨error, -, hcreate⟩ |
    ⟨name, arguments, -, ⟨-, hcreate⟩ |
      ⟨registration, -, ⟨reason, -, hcreate⟩ | ⟨plan, -, -, service, hplaced⟩⟩⟩
  · rw [hcreate] at hlater
    obtain rfl := Option.some.inj (hpatch.symm.trans hlater)
    exact .refl patch
  · rw [hcreate] at hlater
    obtain rfl := Option.some.inj (hpatch.symm.trans hlater)
    exact .refl patch
  · rw [hcreate] at hlater
    obtain rfl := Option.some.inj ((patch?_setPatch hpatch _).symm.trans hlater)
    exact patch.retouched_reserve
  · obtain rfl := Option.some.inj (hplaced.symm.trans hlater)
    exact hintact.retouched_install rfl

/-- An edit retouches the patch at most. -/
theorem retouched_operate (hpatch : studio.patch? number = some patch) (hintact : patch.Intact)
    {operation : Operation} (hedit : operation.isEdit = true)
    (hlater : (studio.operate number operation).patch? number = some later) :
    patch.Retouched later := by
  have hcases : ∀ {edit : Patch → Except PatchError Patch},
      (∀ other, edit patch = .ok other → patch.Retouched other) →
      (studio.editPatch number edit).1.patch? number = some later → patch.Retouched later := by
    intro edit hedit hlater
    rcases patch?_editPatch_cases hpatch hlater with rfl | hother
    · exact .refl later
    · exact hedit later hother
  cases operation with
  | create detail => exact retouched_create hpatch hintact hlater
  | createFromText text => exact retouched_create hpatch hintact hlater
  | remove id => exact hcases (fun _ => hintact.retouched_remove) hlater
  | connect source outlet target inlet => exact hcases (fun _ => hintact.retouched_connect) hlater
  | disconnect source outlet target inlet =>
    exact hcases (fun _ => hintact.retouched_disconnect) hlater
  | clear | read | setChannels | start | stop | tick | process => cases hedit

/-- Take any patch that runs, whatever moves have led to it from a studio of empty patches, and any edit
that changes no wire on a path of signal wires to a box for output channels, where neither before nor
afterwards the signal wires form a cycle. Then all blocks to come are on the output channels what they
would have been without the edit, and the same samples are given out. Samples that meet at an inlet may
be mixed in any way; where they meet at an output channel it must make no difference in which order. -/
theorem edits_elsewhere_unheard (studio : Studio)
    (hempty : ∀ number patch, studio.patch? number = some patch → patch = {}) (moves : List Move)
    (number : Nat) {patch later : Patch}
    (hpatch : (studio.moveAll moves).patch? number = some patch)
    (hrunning : patch.engine.running = true) {edit : Operation} (hedit : edit.isEdit = true)
    (hlater : ((studio.moveAll moves).operate number edit).patch? number = some later)
    (hacyclic : patch.signalGraph.Acyclic) (hacyclicLater : later.signalGraph.Acyclic)
    (haudible : ∀ wire, patch.Audible wire ↔ later.Audible wire)
    (mix : Sample → Sample → Sample) {busMix : Sample → Sample → Sample}
    (hcomm : ∀ x y, busMix x y = busMix y x)
    (hassoc : ∀ x y z, busMix (busMix x y) z = busMix x (busMix y z)) (feeds : List Patch.Feed) :
    patch.processAll (Machine.mixing mix busMix) feeds =
      later.processAll (Machine.mixing mix busMix) feeds := by
  have hstart : studio.Sane := fun place found hfound => hempty place found hfound ▸ .empty
  have hsane := hstart.moveAll moves
  have hintact := hsane number patch hpatch
  have hintactLater := hsane.operate number edit number later hlater
  have helsewhere : patch.EditedElsewhere later :=
    ⟨retouched_operate hpatch hintact hedit hlater, haudible⟩
  exact helsewhere.processAll_eq hintact hintactLater hrunning hacyclic hacyclicLater mix hcomm hassoc
    feeds

/-- A cosine goes through a multiplication, in place, to an output channel. A second multiplication
stands aside, unconnected. The patch runs, and a block has been computed. -/
def onAir : List Move := [
  .operate 0 (.createFromText "osc~ 440"), .operate 0 (.createFromText "*~ 0.5"),
  .operate 0 (.createFromText "dac~ 1"), .operate 0 (.createFromText "*~ 2"),
  .operate 0 (.connect 0 0 1 0), .operate 0 (.connect 1 0 2 0),
  .operate 0 (.start 44100.0 64), .operate 0 (.process [] [64])]

/-- All that can be heard then are the two wires in a row, as long as no other wire leads to one of the
first three boxes. -/
theorem audible_iff_of_row {wires : List Connection}
    (hconnections : patch.connections = [⟨0, 0, 1, 0, true⟩, ⟨1, 0, 2, 0, true⟩] ++ wires)
    (haside : ∀ wire ∈ wires, 2 < wire.target)
    (hboxes : patch.boxes.map (fun box => (box.id, box.machine.isOutput)) =
      [(0, false), (1, false), (2, true), (3, false)]) (wire : Connection) :
    patch.Audible wire ↔ wire = ⟨0, 0, 1, 0, true⟩ ∨ wire = ⟨1, 0, 2, 0, true⟩ := by
  have hbehind : ∀ wire ∈ patch.connections, wire.target ≤ 2 →
      wire = ⟨0, 0, 1, 0, true⟩ ∨ wire = ⟨1, 0, 2, 0, true⟩ := by
    intro wire hwire htarget
    rw [hconnections] at hwire
    rcases List.mem_append.mp hwire with hrow | hother
    · simpa using hrow
    · exact absurd (haside wire hother) (by omega)
  have hrow : ∀ id, patch.LeadsOut id → id ≤ 2 := by
    intro id hid
    induction hid with
    | @output box hbox houtput =>
      have hknown : (box.id, box.machine.isOutput) ∈ [(0, false), (1, false), (2, true), (3, false)] :=
        hboxes ▸ List.mem_map_of_mem hbox
      rw [houtput] at hknown
      simp at hknown
      omega
    | wire hwire hsignal htarget ih => rcases hbehind _ hwire ih with rfl | rfl <;> decide
  have houtput : patch.LeadsOut 2 := by
    obtain ⟨box, hbox, hknown⟩ : ∃ box ∈ patch.boxes, (box.id, box.machine.isOutput) = (2, true) :=
      List.mem_map.mp (hboxes ▸ by decide)
    obtain ⟨hid, hisOutput⟩ := Prod.mk.inj hknown
    exact hid ▸ .output hbox hisOutput
  have hlast : patch.Audible ⟨1, 0, 2, 0, true⟩ := ⟨hconnections ▸ by simp, rfl, houtput⟩
  constructor
  · rintro ⟨hwire, -, htarget⟩
    exact hbehind wire hwire (hrow _ htarget)
  · rintro (rfl | rfl)
    · exact ⟨hconnections ▸ by simp, rfl, hlast.counts.1.leadsOut⟩
    · exact hlast

/-- Nothing changes on the output channel when a wire to the second multiplication is drawn, with which the
first one can no longer work in place. -/
theorem edits_elsewhere_unheard_branch :
    ∃ patch later, (fresh.moveAll onAir).patch? 0 = some patch ∧ patch.inPlaceBoxes = [1] ∧
      ((fresh.moveAll onAir).operate 0 (.connect 0 0 3 0)).patch? 0 = some later ∧
      later.inPlaceBoxes = [] ∧
      patch.processAll (Machine.mixing Sample.add fun x y => ⟨x.bits + y.bits⟩)
          [([], [64]), ([], [64])] =
        later.processAll (Machine.mixing Sample.add fun x y => ⟨x.bits + y.bits⟩)
          [([], [64]), ([], [64])] := by
  let chained (patch : Patch) := (patch.engine.running, patch.inPlaceBoxes, patch.connections)
  let boxed (patch : Patch) := patch.boxes.map fun box => (box.id, box.machine.isOutput)
  let ordered (patch : Patch) := (patch.signalGraph.order.length,
    patch.signalGraph.nodes.map SignalNode.id, patch.signalGraph.participants.length)
  obtain ⟨patch, hpatch, hchained⟩ := Option.map_eq_some_iff.mp
    (by decide +kernel : ((fresh.moveAll onAir).patch? 0).map chained =
      some (true, [1], [⟨0, 0, 1, 0, true⟩, ⟨1, 0, 2, 0, true⟩]))
  obtain ⟨later, hlater, hchainedLater⟩ := Option.map_eq_some_iff.mp
    (by decide +kernel : (((fresh.moveAll onAir).operate 0 (.connect 0 0 3 0)).patch? 0).map chained =
      some (true, [], [⟨0, 0, 1, 0, true⟩, ⟨1, 0, 2, 0, true⟩, ⟨0, 0, 3, 0, true⟩]))
  have hboxed : ((fresh.moveAll onAir).patch? 0).map boxed =
      some [(0, false), (1, false), (2, true), (3, false)] := by decide +kernel
  have hboxedLater : (((fresh.moveAll onAir).operate 0 (.connect 0 0 3 0)).patch? 0).map boxed =
      some [(0, false), (1, false), (2, true), (3, false)] := by decide +kernel
  have hordered : ((fresh.moveAll onAir).patch? 0).map ordered = some (4, [0, 1, 2, 3], 4) := by
    decide +kernel
  have horderedLater : (((fresh.moveAll onAir).operate 0 (.connect 0 0 3 0)).patch? 0).map ordered =
      some (4, [0, 1, 2, 3], 4) := by decide +kernel
  rw [hpatch, Option.map_some, Option.some.injEq] at hboxed hordered
  rw [hlater, Option.map_some, Option.some.injEq] at hboxedLater horderedLater
  have hacyclic : ∀ patch : Patch, ordered patch = (4, [0, 1, 2, 3], 4) →
      patch.signalGraph.Acyclic := by
    intro patch hfacts
    obtain ⟨horder, hrest⟩ := Prod.mk.inj hfacts
    obtain ⟨hids, hparticipants⟩ := Prod.mk.inj hrest
    exact (SignalGraph.length_order_iff_acyclic (hids ▸ by decide)).mp (horder.trans hparticipants.symm)
  obtain ⟨hrunning, hrest⟩ := Prod.mk.inj hchained
  obtain ⟨hinPlace, hconnections⟩ := Prod.mk.inj hrest
  obtain ⟨-, hrestLater⟩ := Prod.mk.inj hchainedLater
  obtain ⟨hinPlaceLater, hconnectionsLater⟩ := Prod.mk.inj hrestLater
  refine ⟨patch, later, hpatch, hinPlace, hlater, hinPlaceLater, ?_⟩
  refine edits_elsewhere_unheard fresh (fun place found hfound => ?_) onAir 0 hpatch hrunning rfl hlater
    (hacyclic patch hordered) (hacyclic later horderedLater) (fun wire => ?_) Sample.add
    (fun x y => ?_) (fun x y z => ?_) [([], [64]), ([], [64])]
  · obtain ⟨entry, hentry, rfl⟩ := Option.map_eq_some_iff.mp hfound
    have hmem : entry ∈ fresh.patches := List.mem_of_find?_eq_some hentry
    rw [List.mem_singleton.mp hmem]
  · have hnone : ∀ wire ∈ ([] : List Connection), 2 < wire.target := nofun
    rw [audible_iff_of_row hconnections hnone hboxed,
      audible_iff_of_row hconnectionsLater (by decide) hboxedLater]
  · rw [UInt32.add_comm]
  · rw [UInt32.add_assoc]

end Studio

end Patchbay
