import Patchbay.Proofs.Patch.Change

/-!
# Boxes in and out of their patch

A box that is taken out of its patch is kept aside, and nothing but its own reactions changes it, in the
patch or out of it. Signal processing touches the state of audio boxes only. So a number that has been
given out is for ever that of one box, or of none if it could not be built.
-/

namespace Patchbay

namespace Machine

/-- A machine apart from the state that signal processing changes. -/
def silenced : Machine → Machine
  | audio _ => control .pass
  | machine => machine

variable (machine : Machine)

theorem silenced_prepare (sampleRate : Float32) :
    (machine.prepare sampleRate).silenced = machine.silenced := by
  cases machine <;> rfl

theorem silenced_release : machine.release.silenced = machine.silenced := by
  cases machine <;> rfl

theorem silenced_perform (inputs : Inputs Sample) (buffers : List (Buffer Sample)) :
    (machine.perform inputs buffers).1.silenced = machine.silenced := by
  cases machine with
  | bench state =>
    simp only [perform, Bench.perform]
    split <;> rfl
  | control | wireless | timing | audio => rfl

theorem silenced_performInPlace (buffer : Buffer Sample) :
    (machine.performInPlace buffer).1.silenced = machine.silenced := by
  cases machine <;> rfl

end Machine

/-- A box apart from the state that signal processing changes. -/
def Box.still (box : Box) : Box := { box with machine := box.machine.silenced }

/-- The numbers of boxes can be read off their looks. -/
theorem map_id_stills (boxes : List Box) : (boxes.map Box.still).map Box.id = boxes.map Box.id := by
  rw [List.map_map]
  rfl

namespace Patch

variable {patch later last : Patch}

/-- The boxes of a patch, and behind them those that were taken out. -/
def everyone (patch : Patch) : List Box := patch.boxes ++ patch.retired

/-- A box is found by its number, be it in the patch or taken out. -/
theorem boxOrRetired?_eq_find? (patch : Patch) (id : Nat) :
    patch.boxOrRetired? id = patch.everyone.find? fun box => box.id == id := by
  rw [boxOrRetired?, everyone, List.find?_append, box?]
  cases patch.boxes.find? fun box => box.id == id <;> rfl

/-- A box that is in the patch is found there. -/
theorem boxOrRetired?_of_box? {id : Nat} {box : Box} (h : patch.box? id = some box) :
    patch.boxOrRetired? id = some box := by
  rw [boxOrRetired?, h, Option.orElse_some]

/-- No two boxes ever had one number, and each has a number that was given out. -/
structure Tagged (patch : Patch) : Prop where
  nodup : (patch.everyone.map Box.id).Nodup
  given : ∀ box ∈ patch.everyone, box.id < patch.nextId

/-- The looks of the box of a number, be it in the patch or taken out. -/
def still? (patch : Patch) (id : Nat) : Option Box := (patch.boxOrRetired? id).map Box.still

/-- The looks of a box are found among the looks of all. -/
theorem still?_eq_find? (patch : Patch) (id : Nat) :
    patch.still? id = (patch.everyone.map Box.still).find? fun box => box.id == id := by
  rw [still?, boxOrRetired?_eq_find?, List.find?_map]
  rfl

/-- Who is in the patch, and who was taken out, looks the same, and the next number is the same. -/
structure SameStills (patch later : Patch) : Prop where
  boxes : later.boxes.map Box.still = patch.boxes.map Box.still
  retired : later.retired.map Box.still = patch.retired.map Box.still
  nextId : later.nextId = patch.nextId

namespace SameStills

theorem refl (patch : Patch) : patch.SameStills patch := ⟨rfl, rfl, rfl⟩

theorem trans (h : patch.SameStills later) (hlast : later.SameStills last) : patch.SameStills last :=
  ⟨hlast.boxes.trans h.boxes, hlast.retired.trans h.retired, hlast.nextId.trans h.nextId⟩

theorem everyone (h : patch.SameStills later) :
    later.everyone.map Box.still = patch.everyone.map Box.still := by
  rw [Patch.everyone, List.map_append, h.boxes, h.retired, ← List.map_append, Patch.everyone]

theorem ids (h : patch.SameStills later) : later.ids = patch.ids := by
  rw [Patch.ids, ← map_id_stills, h.boxes, map_id_stills, Patch.ids]

theorem still? (h : patch.SameStills later) (id : Nat) : later.still? id = patch.still? id := by
  rw [still?_eq_find?, h.everyone, still?_eq_find?]

end SameStills

/-- What is known of the numbers can be told from the looks. -/
theorem Tagged.of_everyone (h : patch.Tagged)
    (heveryone : (later.everyone.map Box.id).Perm (patch.everyone.map Box.id))
    (hnextId : patch.nextId ≤ later.nextId) : later.Tagged where
  nodup := heveryone.nodup_iff.mpr h.nodup
  given box hbox := by
    obtain ⟨old, hold, hid⟩ := List.mem_map.mp (heveryone.subset (List.mem_map_of_mem hbox))
    exact hid ▸ (h.given old hold).trans_le hnextId

/-- Getting ready for a sample rate changes no looks. -/
theorem sameStills_prepare (patch : Patch) (sampleRate : Float32) :
    patch.SameStills (patch.prepare sampleRate) := by
  exact ⟨patch.map_boxes_prepare fun box => by simp only [Box.still, Machine.silenced_prepare], rfl, rfl⟩

/-- Making the chain anew changes no looks. -/
theorem sameStills_rebuild (patch : Patch) : patch.SameStills patch.rebuild.1 := by
  unfold rebuild
  split
  · have hprepare := patch.sameStills_prepare patch.engine.sampleRate
    dsimp only
    split <;> exact ⟨hprepare.boxes, hprepare.retired, hprepare.nextId⟩
  · exact .refl patch

/-- So it is if the chain is made anew only because the signal part was touched. -/
theorem sameStills_rebuildIf (patch : Patch) (signal : Bool) :
    patch.SameStills (patch.rebuildIf signal) := by
  unfold rebuildIf
  split
  · exact patch.sameStills_rebuild
  · exact .refl patch

/-- Stopping changes no looks. -/
theorem sameStills_stop (patch : Patch) : patch.SameStills patch.stop := by
  refine ⟨patch.map_boxes_stop fun box => by simp only [Box.still, Machine.silenced_release], ?_, ?_⟩ <;>
    (unfold stop; split <;> rfl)

/-- Starting changes no looks. -/
theorem sameStills_start (patch : Patch) (sampleRate : Float32) (blockSize : Nat) :
    patch.SameStills (patch.start sampleRate blockSize).1 := by
  unfold start
  split
  · have hstop := patch.sameStills_stop
    refine SameStills.trans ?_ (sameStills_rebuild _)
    exact ⟨hstop.boxes, hstop.retired, hstop.nextId⟩
  · exact .refl patch

/-- A block changes no looks. -/
theorem sameStills_runBlock (hids : patch.ids.Nodup) :
    patch.SameStills (patch.runBlock Machine.processor) := by
  unfold runBlock
  split
  · refine ⟨Chain.map_tick (fun box inputs buffers => ?_) (fun box buffer => ?_) _ hids _, rfl, rfl⟩
    · simp only [Box.still, Machine.silenced_perform]
    · simp only [Box.still, Machine.silenced_performInPlace]
  · exact ⟨rfl, rfl, rfl⟩

/-- So it is if a block is computed only while the patch runs. -/
theorem sameStills_tick (hids : patch.ids.Nodup) :
    patch.SameStills (patch.tick Machine.processor).1 := by
  unfold tick
  split
  · exact sameStills_runBlock hids
  · exact .refl patch

/-- So it is if samples come from outside. -/
theorem sameStills_process (hids : patch.ids.Nodup) (inputs : List (Buffer Sample)) (sizes : List Nat) :
    patch.SameStills (patch.process Machine.processor inputs sizes).1 := by
  unfold process
  split
  · have hrun : SameStills { patch with
        engine := { patch.engine with
          bus := patch.engine.bus.setInputs Machine.processor.zero inputs } } _ :=
      sameStills_runBlock hids
    exact ⟨hrun.boxes, hrun.retired, hrun.nextId⟩
  · exact .refl patch

/-- Connecting changes no looks. -/
theorem sameStills_connect {source outlet target inlet : Nat}
    (h : patch.connect source outlet target inlet = .ok later) : patch.SameStills later := by
  obtain ⟨signal, -, rfl⟩ := connect_eq_ok h
  have hwired : patch.SameStills (patch.withWire ⟨source, outlet, target, inlet, signal⟩) :=
    ⟨rfl, rfl, rfl⟩
  exact hwired.trans (sameStills_rebuildIf _ _)

/-- Disconnecting changes no looks. -/
theorem sameStills_disconnect {source outlet target inlet : Nat}
    (h : patch.disconnect source outlet target inlet = .ok later) : patch.SameStills later := by
  obtain ⟨wire, -, rfl⟩ := disconnect_eq_ok h
  have hcut : patch.SameStills (patch.withoutWire source outlet target inlet) := ⟨rfl, rfl, rfl⟩
  exact hcut.trans (sameStills_rebuildIf _ _)

/-- The boxes that are in the patch have numbers of their own. -/
theorem Tagged.nodup_ids (h : patch.Tagged) : patch.ids.Nodup := by
  have hboth := h.nodup
  rw [everyone, List.map_append] at hboth
  exact (List.nodup_append.mp hboth).1

/-- The looks of those that are taken out are kept. -/
theorem stills_retire (patch : Patch) (boxes : List Box) :
    (patch.retire boxes).retired.map Box.still =
      patch.retired.map Box.still ++ boxes.map Box.still := by
  rw [retire, List.map_append, List.map_map]
  congr 1
  refine List.map_congr_left fun box _ => ?_
  simp only [Function.comp_apply]
  split
  · simp only [Box.still, Machine.silenced_release]
  · rfl

/-- Every number that was given out stays that of the same box, and numbers are only added. -/
structure Carries (patch later : Patch) : Prop where
  nextId : patch.nextId ≤ later.nextId
  still? : ∀ id < patch.nextId, later.still? id = patch.still? id

theorem Carries.trans (h : patch.Carries later) (hlast : later.Carries last) : patch.Carries last where
  nextId := h.nextId.trans hlast.nextId
  still? id hid := (hlast.still? id (hid.trans_le h.nextId)).trans (h.still? id hid)

/-- In a patch whose boxes have numbers of their own, looks are found wherever they stand. -/
theorem Tagged.still?_eq_some_iff (h : patch.Tagged) {id : Nat} {look : Box} :
    patch.still? id = some look ↔ look ∈ patch.everyone.map Box.still ∧ look.id = id := by
  rw [still?_eq_find?]
  constructor
  · intro hfound
    exact ⟨List.mem_of_find?_eq_some hfound, by simpa using List.find?_some hfound⟩
  · rintro ⟨hmem, rfl⟩
    have hids : ((patch.everyone.map Box.still).map Box.id).Nodup := by
      rw [map_id_stills]
      exact h.nodup
    have hsome : ((patch.everyone.map Box.still).find? fun box => box.id == look.id).isSome = true :=
      List.find?_isSome.mpr ⟨look, hmem, beq_self_eq_true _⟩
    obtain ⟨found, hfound⟩ := Option.isSome_iff_exists.mp hsome
    rw [hfound, eq_of_find? hids hfound hmem rfl]

/-- The next number is nobody's as yet. -/
theorem Tagged.still?_nextId (h : patch.Tagged) : patch.still? patch.nextId = none := by
  refine Option.eq_none_iff_forall_ne_some.mpr fun look hlook => ?_
  obtain ⟨hmem, hid⟩ := h.still?_eq_some_iff.mp hlook
  obtain ⟨box, hbox, rfl⟩ := List.mem_map.mp hmem
  exact (h.given box hbox).ne hid

/-- Nobody has come, and whoever was there is there or was taken out. -/
structure Rearranged (patch later : Patch) : Prop where
  everyone : (later.everyone.map Box.still).Perm (patch.everyone.map Box.still)
  nextId : patch.nextId ≤ later.nextId

namespace Rearranged

theorem tagged (h : patch.Rearranged later) (htagged : patch.Tagged) : later.Tagged := by
  have hids := h.everyone.map Box.id
  rw [map_id_stills, map_id_stills] at hids
  exact htagged.of_everyone hids h.nextId

/-- The looks of every number are what they were. -/
theorem still? (h : patch.Rearranged later) (htagged : patch.Tagged) (id : Nat) :
    later.still? id = patch.still? id := by
  refine Option.ext fun look => ?_
  rw [(h.tagged htagged).still?_eq_some_iff, htagged.still?_eq_some_iff, h.everyone.mem_iff]

theorem carries (h : patch.Rearranged later) (htagged : patch.Tagged) : patch.Carries later :=
  ⟨h.nextId, fun id _ => h.still? htagged id⟩

end Rearranged

theorem SameStills.rearranged (h : patch.SameStills later) : patch.Rearranged later :=
  ⟨h.everyone ▸ .refl _, h.nextId.ge⟩

/-- A box that goes to the end leaves the others where they are. -/
theorem filter_append_perm {boxes : List Box} (hids : (boxes.map Box.id).Nodup) {id : Nat} {box : Box}
    (hfound : (boxes.find? fun other => other.id == id) = some box) :
    ((boxes.filter fun other => other.id != id) ++ [box]).Perm boxes := by
  induction boxes with
  | nil => cases hfound
  | cons first rest ih =>
    obtain ⟨hfirst, hrest⟩ := List.nodup_cons.mp hids
    by_cases hid : first.id = id
    · subst hid
      have hkept : (rest.filter fun other => other.id != first.id) = rest := by
        refine List.filter_eq_self.mpr fun other hother => ?_
        exact bne_iff_ne.mpr fun heq => hfirst (heq ▸ List.mem_map_of_mem hother)
      obtain rfl : first = box := by simpa using hfound
      rw [List.filter_cons_of_neg (by simp), hkept]
      exact List.perm_append_singleton first rest
    · rw [List.find?_cons_of_neg (by simpa using hid)] at hfound
      rw [List.filter_cons_of_pos (by simpa using hid), List.cons_append]
      exact (ih hrest hfound).cons first

/-- Removing a box puts it aside. -/
theorem rearranged_remove {id : Nat} (h : patch.Tagged) (hremove : patch.remove id = .ok later) :
    patch.Rearranged later := by
  obtain ⟨box, hbox, rfl⟩ := remove_eq_ok hremove
  have hrebuilt := (patch.without id).sameStills_rebuildIf box.hasSignals
  have hboxes : (((patch.without id).rebuildIf box.hasSignals).retire [box]).boxes.map Box.still =
      (patch.without id).boxes.map Box.still := hrebuilt.boxes
  have hpart : ((patch.without id).boxes ++ [box]).Perm patch.boxes :=
    filter_append_perm h.nodup_ids hbox
  have hlooks : (((patch.without id).rebuildIf box.hasSignals).retire [box]).everyone.map Box.still =
      ((patch.without id).boxes ++ (patch.retired ++ [box])).map Box.still := by
    rw [everyone, List.map_append, stills_retire, hrebuilt.retired, hboxes]
    simp only [List.map_append]
    rfl
  refine ⟨?_, hrebuilt.nextId.ge⟩
  rw [hlooks, everyone]
  refine List.Perm.map Box.still (List.Perm.trans ?_ (hpart.append_right patch.retired))
  rw [List.append_assoc]
  exact List.perm_append_comm.append_left _

/-- Clearing puts all boxes aside. -/
theorem rearranged_clear (patch : Patch) : patch.Rearranged patch.clear := by
  let emptied : Patch := { patch with boxes := [], connections := [] }
  have hrebuilt := emptied.sameStills_rebuildIf true
  have hboxes : patch.clear.boxes.map Box.still = [] := hrebuilt.boxes
  have hlooks : patch.clear.everyone.map Box.still =
      (patch.retired ++ patch.boxes).map Box.still := by
    rw [everyone, List.map_append, hboxes, clear, stills_retire, hrebuilt.retired, List.map_append]
    rfl
  refine ⟨?_, hrebuilt.nextId.ge⟩
  rw [hlooks, everyone]
  exact List.Perm.map Box.still List.perm_append_comm

/-- A box that is put in comes to those that were there. -/
theorem everyone_install (patch : Patch) (box : Box) :
    ((patch.reserve.1.install box).everyone.map Box.still).Perm
      (box.still :: patch.everyone.map Box.still) := by
  let joined : Patch := { patch.reserve.1 with boxes := patch.boxes ++ [box] }
  have hlooks : (patch.reserve.1.install box).everyone.map Box.still =
      patch.boxes.map Box.still ++ (box.still :: patch.retired.map Box.still) := by
    refine (joined.sameStills_rebuildIf box.hasSignals).everyone.trans ?_
    simp [joined, everyone, reserve]
  rw [hlooks, everyone, List.map_append]
  exact List.perm_middle

/-- Putting in a box gives out its number. -/
theorem nextId_install (patch : Patch) (box : Box) :
    (patch.reserve.1.install box).nextId = patch.nextId + 1 := (sameStills_rebuildIf _ _).nextId

/-- A box may be put in under the number that was given out for it. -/
theorem tagged_install (h : patch.Tagged) {box : Box} (hid : box.id = patch.nextId) :
    (patch.reserve.1.install box).Tagged := by
  have hnextId := patch.nextId_install box
  have hids := (everyone_install patch box).map Box.id
  rw [map_id_stills, List.map_cons, map_id_stills] at hids
  refine ⟨hids.nodup_iff.mpr (List.nodup_cons.mpr ⟨?_, h.nodup⟩), fun other hother => ?_⟩
  · intro hmem
    obtain ⟨old, hold, heq⟩ := List.mem_map.mp hmem
    have hless := h.given old hold
    have hsame : old.id = patch.nextId := heq.trans hid
    omega
  · have hmem := hids.subset (List.mem_map_of_mem hother)
    rcases List.mem_cons.mp hmem with heq | hmem
    · have hsame : other.id = patch.nextId := heq.trans hid
      omega
    · obtain ⟨old, hold, heq⟩ := List.mem_map.mp hmem
      have hless := h.given old hold
      omega

/-- Under its number the box is found that was put in, and every other number stands for what it did. -/
theorem still?_install (h : patch.Tagged) {box : Box} (hid : box.id = patch.nextId) (id : Nat) :
    (patch.reserve.1.install box).still? id =
      if id = patch.nextId then some box.still else patch.still? id := by
  have hstill : box.still.id = patch.nextId := hid
  refine Option.ext fun look => ?_
  rw [(tagged_install h hid).still?_eq_some_iff, (everyone_install patch box).mem_iff, List.mem_cons]
  split
  · next heq =>
    rw [Option.some.injEq]
    constructor
    · rintro ⟨rfl | hmem, hlook⟩
      · rfl
      · obtain ⟨old, hold, rfl⟩ := List.mem_map.mp hmem
        exact absurd (hlook.trans heq) (h.given old hold).ne
    · rintro rfl
      exact ⟨Or.inl rfl, hstill.trans heq.symm⟩
  · next hne =>
    rw [h.still?_eq_some_iff]
    constructor
    · rintro ⟨rfl | hmem, hlook⟩
      · exact absurd (hlook.symm.trans hstill) hne
      · exact ⟨hmem, hlook⟩
    · rintro ⟨hmem, hlook⟩
      exact ⟨Or.inr hmem, hlook⟩

/-- A change of one box is seen under its number only, be the box in the patch or taken out. -/
theorem boxOrRetired?_updateBox (patch : Patch) (id : Nat) {change : Box → Box}
    (hchange : ∀ box, (change box).id = box.id) (wanted : Nat) :
    (patch.updateBox id change).boxOrRetired? wanted =
      (patch.boxOrRetired? wanted).map fun box => if box.id = id then change box else box := by
  rw [boxOrRetired?_eq_find?, boxOrRetired?_eq_find?, everyone, updateBox, ← List.map_append,
    List.find?_map, everyone]
  congr 2
  funext box
  simp only [Function.comp_apply]
  split
  · rw [hchange]
  · rfl

/-- In every change but one, in which a box is put in, nobody comes. -/
theorem Change.rearranged (hchange : patch.Change later) (h : patch.Tagged) : patch.Rearranged later ∨
    ∃ box, box.id = patch.nextId ∧ later = patch.reserve.1.install box := by
  cases hchange with
  | reserve => exact .inl ⟨.refl _, Nat.le_succ _⟩
  | install box hid => exact .inr ⟨box, hid, rfl⟩
  | remove id hremove => exact .inl (rearranged_remove h hremove)
  | clear => exact .inl patch.rearranged_clear
  | connect source outlet target inlet hconnect => exact .inl (sameStills_connect hconnect).rearranged
  | disconnect source outlet target inlet hdisconnect =>
    exact .inl (sameStills_disconnect hdisconnect).rearranged
  | setChannels inputs outputs => exact .inl ⟨.refl _, Nat.le_refl _⟩
  | start sampleRate blockSize => exact .inl (patch.sameStills_start sampleRate blockSize).rearranged
  | stop => exact .inl patch.sameStills_stop.rearranged
  | tick => exact .inl (sameStills_tick h.nodup_ids).rearranged
  | process inputs sizes => exact .inl (sameStills_process h.nodup_ids inputs sizes).rearranged

/-- A patch whose boxes have numbers of their own keeps them and what they look like in every change. -/
theorem Change.carries (hchange : patch.Change later) (h : patch.Tagged) :
    later.Tagged ∧ patch.Carries later := by
  rcases hchange.rearranged h with hrearranged | ⟨box, hid, rfl⟩
  · exact ⟨hrearranged.tagged h, hrearranged.carries h⟩
  · refine ⟨tagged_install h hid, ?_, fun id hless => ?_⟩
    · rw [nextId_install]
      exact Nat.le_succ _
    · rw [still?_install h hid, if_neg hless.ne]

/-- So do changes one after the other: a number that was given out stays that of one box. -/
theorem carries_of_changes (h : patch.Tagged) (hchanges : Relation.ReflTransGen Change patch later) :
    later.Tagged ∧ patch.Carries later := by
  induction hchanges with
  | refl => exact ⟨h, Nat.le_refl _, fun _ _ => rfl⟩
  | tail _ hchange ih =>
    obtain ⟨htagged, hcarries⟩ := ih
    obtain ⟨hlast, hlastCarries⟩ := hchange.carries htagged
    exact ⟨hlast, hcarries.trans hlastCarries⟩

end Patch

end Patchbay
