import Patchbay.Proofs.Studio.Relay

/-!
# What messages leave alone

Boxes change their state, edit their patch and build new boxes, but nothing that a message brings about
touches the limits of patches. Everything done between deliveries leaves the level of nesting as it is.
-/

namespace Patchbay

namespace Patch

variable {patch later : Patch}

/-- Making the chain anew leaves the limit as it is. -/
theorem depthLimit_rebuildIf (patch : Patch) (signal : Bool) :
    (patch.rebuildIf signal).depthLimit = patch.depthLimit := by
  unfold rebuildIf rebuild prepare
  split
  · split
    · dsimp only
      split <;> rfl
    · rfl
  · rfl

/-- So does stopping. -/
theorem depthLimit_stop (patch : Patch) : patch.stop.depthLimit = patch.depthLimit := by
  unfold stop
  split <;> rfl

/-- So does starting. -/
theorem depthLimit_start (patch : Patch) (sampleRate : Float32) (blockSize : Nat) :
    (patch.start sampleRate blockSize).1.depthLimit = patch.depthLimit := by
  unfold start
  split
  · exact (depthLimit_rebuildIf _ true).trans patch.depthLimit_stop
  · rfl

/-- So does computing a block. -/
theorem depthLimit_runBlock (patch : Patch) :
    (patch.runBlock Machine.processor).depthLimit = patch.depthLimit := by
  unfold runBlock
  split <;> rfl

/-- No change touches the limit of the patch. -/
theorem Change.depthLimit (h : patch.Change later) : later.depthLimit = patch.depthLimit := by
  cases h with
  | reserve => rfl
  | install box hid => exact depthLimit_rebuildIf _ _
  | remove id h =>
    obtain ⟨box, -, rfl⟩ := remove_eq_ok h
    exact depthLimit_rebuildIf (patch.without id) _
  | clear => exact depthLimit_rebuildIf { patch with boxes := [], connections := [] } true
  | connect source outlet target inlet h =>
    obtain ⟨signal, -, rfl⟩ := connect_eq_ok h
    exact depthLimit_rebuildIf (patch.withWire _) _
  | disconnect source outlet target inlet h =>
    obtain ⟨wire, -, rfl⟩ := disconnect_eq_ok h
    exact depthLimit_rebuildIf (patch.withoutWire _ _ _ _) _
  | setChannels inputs outputs => rfl
  | start sampleRate blockSize => exact depthLimit_start patch sampleRate blockSize
  | stop => exact depthLimit_stop patch
  | tick =>
    unfold Patch.tick
    split
    · exact depthLimit_runBlock patch
    · rfl
  | process inputs sizes =>
    unfold Patch.process
    split
    · exact depthLimit_runBlock _
    · rfl

end Patch

/-- A delivery is noted at a level of nesting above the least and up to the most; other events have
none. -/
def Event.Within (least most : Nat) : Event → Prop
  | .received _ _ _ level => least < level ∧ level ≤ most
  | _ => True

namespace Studio

/-- How deeply deliveries into the patch of a number may nest. -/
def limit? (studio : Studio) (number : Nat) : Option Nat :=
  (studio.patch? number).map Patch.depthLimit

/-- The highest of the limits of all patches. -/
def highest (studio : Studio) : Nat :=
  studio.patches.foldl (fun most entry => max most entry.2.depthLimit) 0

/-- The limits and the nesting are as they were, and what was noted has its place between two levels. -/
structure Kept (least most : Nat) (studio later : Studio) : Prop where
  nesting : later.nesting = studio.nesting
  limits : later.limit? = studio.limit?
  noted : ∃ events, later.events = events ++ studio.events ∧ ∀ event ∈ events, event.Within least most

variable {least most number : Nat} {patch : Patch} {studio later last : Studio}

/-- The patches of other numbers stay where they are. -/
theorem patch?_setPatch_of_ne (other : Patch) {place : Nat} (hplace : place ≠ number) :
    (studio.setPatch number other).patch? place = studio.patch? place := by
  unfold patch? setPatch
  induction studio.patches with
  | nil => rfl
  | cons entry rest ih =>
    by_cases hentry : entry.1 = number
    · have hother : (number == place) = false := by simpa using Ne.symm hplace
      simpa [hentry, hother] using ih
    · cases hfound : entry.1 == place <;> simp_all

namespace Kept

/-- Nothing is kept better than by doing nothing. -/
protected theorem refl (studio : Studio) : Kept least most studio studio :=
  ⟨rfl, rfl, [], rfl, by simp⟩

/-- Of two things done in turn each keeps what the other keeps. -/
protected theorem trans (h : Kept least most studio later) (hlast : Kept least most later last) :
    Kept least most studio last where
  nesting := hlast.nesting.trans h.nesting
  limits := hlast.limits.trans h.limits
  noted := by
    obtain ⟨events, hevents, hwithin⟩ := h.noted
    obtain ⟨more, hmore, hmoreWithin⟩ := hlast.noted
    refine ⟨more ++ events, by rw [hmore, hevents, List.append_assoc], fun event hevent => ?_⟩
    rcases List.mem_append.mp hevent with hevent | hevent
    · exact hmoreWithin event hevent
    · exact hwithin event hevent

/-- What has its place above one level has it above a lower one. -/
theorem of_le {above : Nat} (h : Kept above most studio later) (hle : least ≤ above) :
    Kept least most studio later where
  nesting := h.nesting
  limits := h.limits
  noted := by
    obtain ⟨events, hevents, hwithin⟩ := h.noted
    refine ⟨events, hevents, fun event hevent => ?_⟩
    have hplace := hwithin event hevent
    cases event with
    | received handle inlet atoms level => exact ⟨Nat.lt_of_le_of_lt hle hplace.1, hplace.2⟩
    | _ => trivial

/-- The same patches have the same limits. -/
theorem of_same (hpatches : later.patches = studio.patches) (hnesting : later.nesting = studio.nesting)
    (hevents : later.events = studio.events) : Kept least most studio later where
  nesting := hnesting
  limits := by
    funext number
    rw [limit?, patch?, hpatches, limit?, patch?]
  noted := ⟨[], hevents, by simp⟩

/-- An event that is no delivery may be noted. -/
theorem of_event (event : Event) (h : event.Within least most) :
    Kept least most studio { studio with events := event :: studio.events } :=
  ⟨rfl, rfl, [event], rfl, by simpa using h⟩

/-- A patch may be put in the place of one that has the same limit. -/
theorem setPatch (hpatch : studio.patch? number = some patch) {other : Patch}
    (hlimit : other.depthLimit = patch.depthLimit) :
    Kept least most studio (studio.setPatch number other) where
  nesting := rfl
  limits := by
    funext place
    by_cases hplace : place = number
    · rw [hplace, limit?, patch?_setPatch hpatch, limit?, hpatch, Option.map_some, hlimit,
        Option.map_some]
    · rw [limit?, patch?_setPatch_of_ne other hplace, limit?]
  noted := ⟨[], rfl, by simp⟩

/-- A box takes on its new state. -/
theorem settleReaction (studio : Studio) (handle : Handle) (reaction : Reaction Machine) :
    Kept least most studio (studio.settleReaction handle reaction) := by
  unfold Studio.settleReaction
  split
  · exact .refl studio
  · next patch hpatch => exact setPatch hpatch rfl

/-- Unbinding castaways concerns the beacons only. -/
theorem prune (studio : Studio) : Kept least most studio studio.prune := .of_same rfl rfl rfl

/-- A listener takes note. -/
theorem hear (studio : Studio) (name : String) (atoms : List Atom) :
    Kept least most studio (studio.hear name atoms) := .of_same rfl rfl rfl

/-- A line is printed. -/
theorem print (studio : Studio) (line : String) : Kept least most studio (studio.print line) :=
  .of_same (by simp only [Studio.print]) (by simp only [Studio.print]) (by simp only [Studio.print])

/-- A tick is asked for. -/
theorem tickAfter (studio : Studio) (handle : Handle) (clock wait : Nat) :
    Kept least most studio (studio.tickAfter handle clock wait).1 := by
  unfold Studio.tickAfter
  split
  · exact .of_same rfl rfl rfl
  · exact .refl studio

/-- A patch is edited. -/
theorem editPatch (studio : Studio) (number : Nat) {edit : Patch → Except PatchError Patch}
    (hedit : ∀ now later, edit now = .ok later → Patch.Change now later) :
    Kept least most studio (studio.editPatch number edit).1 := by
  unfold Studio.editPatch
  split
  · exact .refl studio
  next patch hpatch =>
  split
  · exact .refl studio
  next other hother =>
  exact (setPatch hpatch (hedit patch other hother).depthLimit).trans (prune _)

/-- A box is built. -/
theorem create (studio : Studio) (number : Nat) (detail : Dico) :
    Kept least most studio (studio.create number detail).1 := by
  unfold Studio.create
  split
  · exact .refl studio
  next patch hpatch =>
  split
  · exact .refl studio
  split
  · exact .refl studio
  dsimp only
  split
  · exact setPatch hpatch (Patch.Change.reserve patch).depthLimit
  · next plan _ =>
    have hprovide : Kept least most studio
        (studio.provide ⟨number, patch.nextId⟩ plan.service).1 := by
      cases plan.service <;> exact .of_same rfl rfl rfl
    have hprovided := (patch?_provide studio ⟨number, patch.nextId⟩ plan.service number).trans hpatch
    exact hprovide.trans (setPatch hprovided (Patch.Change.install patch _ rfl).depthLimit)

/-- An edit that a box asked for is carried out. -/
theorem applyEdit (studio : Studio) (number : Nat) (edit : Edit) :
    Kept least most studio (studio.applyEdit number edit).1 := by
  cases edit with
  | remove id => exact editPatch studio number fun _ _ h => .remove id h
  | connect source outlet target inlet =>
    exact editPatch studio number fun _ _ h => .connect source outlet target inlet h
  | disconnect source outlet target inlet =>
    exact editPatch studio number fun _ _ h => .disconnect source outlet target inlet h
  | create words => exact create studio number _
  | clear =>
    refine editPatch studio number fun now later h => ?_
    obtain rfl := Except.ok.inj h
    exact .clear now

end Kept

/-- The limit of a patch is at most the highest. -/
theorem limit?_le_highest {limit : Nat} (h : studio.limit? number = some limit) :
    limit ≤ studio.highest := by
  obtain ⟨patch, hpatch, rfl⟩ := Option.map_eq_some_iff.mp h
  exact Nat.le_of_lt_succ (depthLimit_lt_levels hpatch)

end Studio

end Patchbay
