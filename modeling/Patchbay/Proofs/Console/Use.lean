import Patchbay.Proofs.Console.Errors
import Patchbay.Proofs.Studio.Labels

/-!
# Consoles in use

Whatever lines are typed at a console, whatever is on the disk and however much time passes in between, the
attributes of all boxes have words for names. So they can be named in a line.
-/

namespace Patchbay

namespace Studio

/-- Nothing is put in the place of a patch that is not there. -/
theorem patches_setPatch_of_none {studio : Studio} {number : Nat} (h : studio.patch? number = none)
    (patch : Patch) : (studio.setPatch number patch).patches = studio.patches := by
  have habsent := List.find?_eq_none.mp (Option.map_eq_none_iff.mp h)
  refine (List.map_congr_left fun entry hentry => if_neg ?_).trans (List.map_id _)
  simpa using habsent entry hentry

end Studio

namespace Console

/-- A console that was opened, at which lines were typed and patches were read, and time has passed. -/
inductive InUse : Console → Prop where
  | opened (settings : EngineSettings) (userFolder : String) : InUse (openEmpty settings userFolder)
  | typed {console : Console} (h : InUse console) (line : List Char) (disk : Disk) :
    InUse ((console.executeLine line : StateM Disk _).run disk).1.1
  | read {console : Console} (h : InUse console) (saved : Dico) : InUse (console.replace saved).1
  | passed {console : Console} (h : InUse console) (wait : Nat) : InUse (console.pass wait)
  | looked {console : Console} (h : InUse console) : InUse console.takePrinted.1

variable {console later : Console}

/-- Attributes have words for names in all patches of the studio. -/
def Worded (console : Console) : Prop := console.studio.All Patch.Worded

namespace Worded

/-- It is so in the patch being edited. -/
theorem patch (h : console.Worded) : console.patch.Worded := by
  rw [Console.patch]
  cases hpatch : console.studio.patch? console.number with
  | none => exact .empty
  | some patch => exact h _ patch hpatch

/-- Another patch in which it is so may be put in its place. -/
theorem setPatch (h : console.Worded) {patch : Patch} (hpatch : patch.Worded) :
    (console.setPatch patch).Worded := by
  cases hfound : console.studio.patch? console.number with
  | none => exact Studio.All.of_patches h (Studio.patches_setPatch_of_none hfound patch)
  | some found => exact Studio.All.setPatch h hfound hpatch

/-- Signal processing may be stopped. -/
theorem stopDriving (h : console.Worded) : console.stopDriving.Worded := by
  unfold Console.stopDriving
  split
  · exact h.setPatch (h.patch.rearranged console.patch.sameStills_stop.rearranged)
  · exact h

/-- It may be started. -/
theorem start (h : console.Worded) (sampleRate blockSize : Nat) :
    (console.start sampleRate blockSize).1.Worded := by
  have hstopped := h.stopDriving
  unfold Console.start
  dsimp only
  split
  · exact hstopped
  · exact hstopped.setPatch
      (hstopped.patch.rearranged (Patch.sameStills_start _ _ blockSize).rearranged)

/-- Every command that has nothing to do with files may be carried out. -/
theorem perform (h : console.Worded) (command : Command) : (console.perform command).1.Worded := by
  have hlasting := Studio.lasting_worded
  cases command with
  | create text =>
    have hcreate : (console.studio.createFromText console.number text).1.All Patch.Worded :=
      hlasting.create h _
    simp only [Console.perform]
    split <;> exact hcreate
  | remove id => exact hlasting.remove h id
  | connect source outlet target inlet => exact hlasting.connect h source outlet target inlet
  | disconnect source outlet target inlet => exact hlasting.disconnect h source outlet target inlet
  | send id inlet atoms => exact hlasting.perform h (.send ⟨console.number, id⟩ inlet atoms)
  | set id name atoms =>
    simp only [Console.perform]
    split
    · exact h
    split
    · exact h
    · next set changed hset => exact h.setPatch (h.patch.setAttribute hset)
  | start sampleRate? blockSize? => exact h.start _ _
  | stop | quit => exact h.stopDriving
  | nothing | get | list | objects | save | load | help => exact h

/-- A saved patch may be read. -/
theorem replace (h : console.Worded) (saved : Dico) : (console.replace saved).1.Worded :=
  Studio.lasting_worded.readPatch h saved

/-- Every command may be carried out. -/
theorem execute (h : console.Worded) {command : Command} {answer : Except ConsoleError Answer}
    {disk after : Disk}
    (hrun : (console.execute command : StateM Disk _).run disk = ((later, answer), after)) : later.Worded := by
  unfold Console.execute at hrun
  split at hrun
  · obtain ⟨written, middle, hrun⟩ := exists_run_bind hrun
    split at hrun <;> exact (Prod.mk.inj (Prod.mk.inj hrun).1).1 ▸ h
  · obtain ⟨found, middle, hrun⟩ := exists_run_bind hrun
    split at hrun
    · exact (Prod.mk.inj (Prod.mk.inj hrun).1).1 ▸ h
    · obtain ⟨loaded, rest, hrun⟩ := exists_run_bind hrun
      split at hrun
      · exact (Prod.mk.inj (Prod.mk.inj hrun).1).1 ▸ h
      · next saved => exact (Prod.mk.inj (Prod.mk.inj hrun).1).1 ▸ h.replace saved
  · have hlater : (console.perform _).1 = later := congrArg Prod.fst (Prod.mk.inj hrun).1
    exact hlater ▸ h.perform _

end Worded

/-- So it is at every console in use. -/
theorem InUse.worded (h : console.InUse) : console.Worded := by
  induction h with
  | opened settings userFolder =>
    have hempty : (settings.setUp {}).Worded := ⟨⟨List.nodup_nil, nofun⟩, nofun⟩
    have hadded : (({} : Studio).addPatch.1).All Patch.Worded := by
      intro number patch hpatch
      obtain ⟨entry, hentry, rfl⟩ := Option.map_eq_some_iff.mp hpatch
      rw [List.mem_singleton.mp (List.mem_of_find?_eq_some hentry)]
      exact .empty
    exact hadded.setPatch rfl hempty
  | typed h line disk ih =>
    unfold executeLine
    split
    · exact ih
    · exact ih.execute rfl
  | read h saved ih => exact ih.replace saved
  | passed h wait ih => exact Studio.lasting_worded.pass ih wait
  | looked h ih => exact Studio.All.of_patches ih rfl

end Console

end Patchbay
