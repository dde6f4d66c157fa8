import Patchbay.Proofs.Patch.Change

/-!
# Operations on a patch of a studio

What can be asked of a studio for one of its patches, one operation after the other. Each operation
takes the patch through changes, be it none because the operation was refused, or many because a saved
patch is read.
-/

namespace Patchbay

/-- What can be done to a patch from outside. -/
inductive Operation where
  | create (detail : Dico)
  | createFromText (text : String)
  | remove (id : Nat)
  | clear
  | connect (source outlet target inlet : Nat)
  | disconnect (source outlet target inlet : Nat)
  | read (saved : Dico)
  | setChannels (inputs outputs : Nat)
  | start (sampleRate : Float32) (blockSize : Nat)
  | stop
  | tick
  | process (inputs : List (Buffer Sample)) (sizes : List Nat)

namespace Studio

/-- Put what comes of a patch in its place. -/
def adjust (studio : Studio) (number : Nat) (change : Patch → Patch) : Studio :=
  match studio.patch? number with
  | none => studio
  | some patch => studio.setPatch number (change patch)

/-- Carry out an operation on the patch of a number. -/
def operate (studio : Studio) (number : Nat) : Operation → Studio
  | .create detail => (studio.create number detail).1
  | .createFromText text => (studio.createFromText number text).1
  | .remove id => (studio.editPatch number fun patch => patch.remove id).1
  | .clear => (studio.editPatch number fun patch => .ok patch.clear).1
  | .connect source outlet target inlet =>
    (studio.editPatch number fun patch => patch.connect source outlet target inlet).1
  | .disconnect source outlet target inlet =>
    (studio.editPatch number fun patch => patch.disconnect source outlet target inlet).1
  | .read saved => (studio.readPatch number saved).1
  | .setChannels inputs outputs =>
    studio.adjust number fun patch => patch.setChannels inputs outputs
  | .start sampleRate blockSize =>
    studio.adjust number fun patch => (patch.start sampleRate blockSize).1
  | .stop => studio.adjust number Patch.stop
  | .tick => studio.adjust number fun patch => (patch.tick Machine.processor).1
  | .process inputs sizes =>
    studio.adjust number fun patch => (patch.process Machine.processor inputs sizes).1

/-- Carry out operations one after the other. -/
def operateAll (studio : Studio) (number : Nat) (operations : List Operation) : Studio :=
  operations.foldl (fun studio operation => studio.operate number operation) studio

/-- A patch is found where it was put. -/
theorem patch?_setPatch {studio : Studio} {number : Nat} {patch : Patch}
    (h : studio.patch? number = some patch) (later : Patch) :
    (studio.setPatch number later).patch? number = some later := by
  obtain ⟨entry, hentry, rfl⟩ := Option.map_eq_some_iff.mp h
  have hnumber : entry.1 = number := by simpa using List.find?_some hentry
  have hsame : ((fun entry : Nat × Patch => entry.1 == number) ∘ fun entry =>
      if entry.1 = number then (number, later) else entry) = fun entry => entry.1 == number := by
    funext other
    simp only [Function.comp_apply]
    split
    · next heq => simp [heq]
    · rfl
  simp only [patch?, setPatch, List.find?_map, hsame, hentry, Option.map_some, hnumber, if_true]

/-- A service takes nothing from the patches. -/
theorem patch?_provide (studio : Studio) (handle : Handle) (service : Service) (number : Nat) :
    (studio.provide handle service).1.patch? number = studio.patch? number := by
  cases service <;> rfl

/-! ### Reading a saved patch

A saved patch is read by clearing the patch, building boxes in it and drawing wires in it, and in no other
way. So what each of these leaves true is true after the reading.
-/

section Reading

variable {P : Studio → Prop} {number : Nat} {studio : Studio}

/-- What building a box leaves true is true when the boxes of a saved patch have been built. -/
theorem readBoxes_induction
    (hcreate : ∀ studio detail, P studio → P (studio.create number detail).1) (entries : List Atom)
    (renumbering : Renumbering) (h : P studio) : P (readBoxes number entries (studio, renumbering)).1 := by
  induction entries generalizing studio renumbering with
  | nil => exact h
  | cons entry rest ih =>
    cases entry with
    | dico detail _ => exact ih _ (hcreate studio detail h)
    | _ => exact ih _ h

/-- What drawing a wire leaves true is true when the wires of a saved patch have been drawn. -/
theorem readLinks_induction
    (hconnect : ∀ studio source outlet target inlet, P studio →
      P (studio.editPatch number fun patch => patch.connect source outlet target inlet).1)
    (renumbering : Renumbering) (entries : List Atom) (h : P studio) :
    P (readLinks number renumbering entries studio) := by
  induction entries generalizing studio with
  | nil => exact h
  | cons entry rest ih =>
    cases entry with
    | dico link _ =>
      refine ih ?_
      split
      · exact hconnect studio _ _ _ _ h
      · exact h
    | _ => exact ih h

theorem readPatch_induction
    (hclear : ∀ studio, P studio → P (studio.editPatch number fun patch => .ok patch.clear).1)
    (hcreate : ∀ studio detail, P studio → P (studio.create number detail).1)
    (hconnect : ∀ studio source outlet target inlet, P studio →
      P (studio.editPatch number fun patch => patch.connect source outlet target inlet).1)
    (saved : Dico) (h : P studio) : P (studio.readPatch number saved).1 :=
  readLinks_induction hconnect _ _ (readBoxes_induction hcreate _ _ (hclear studio h))

end Reading

/-- The patch of a number is one that comes of another by changes. -/
def Reaches (studio : Studio) (number : Nat) (patch : Patch) : Prop :=
  ∃ later, studio.patch? number = some later ∧ Relation.ReflTransGen Patch.Change patch later

namespace Reaches

variable {studio : Studio} {number : Nat} {patch : Patch}

/-- An edit takes the patch through a change, or leaves it as it is if it is refused. -/
theorem editPatch (h : studio.Reaches number patch) {edit : Patch → Except PatchError Patch}
    (hedit : ∀ now later, edit now = .ok later → Patch.Change now later) :
    (studio.editPatch number edit).1.Reaches number patch := by
  obtain ⟨now, hnow, hchanges⟩ := h
  unfold Studio.editPatch
  rw [hnow]
  dsimp only
  split
  · exact ⟨now, hnow, hchanges⟩
  · next later hlater =>
    exact ⟨later, patch?_setPatch hnow later, hchanges.tail (hedit now later hlater)⟩

/-- Clearing takes the patch through a change. -/
theorem clear (h : studio.Reaches number patch) :
    (studio.editPatch number fun patch => .ok patch.clear).1.Reaches number patch := by
  refine h.editPatch fun now later hlater => ?_
  obtain rfl := Except.ok.inj hlater
  exact .clear now

/-- A change takes the patch through that change. -/
theorem adjust (h : studio.Reaches number patch) {change : Patch → Patch}
    (hchange : ∀ now, Patch.Change now (change now)) :
    (studio.adjust number change).Reaches number patch := by
  obtain ⟨now, hnow, hchanges⟩ := h
  unfold Studio.adjust
  rw [hnow]
  exact ⟨change now, patch?_setPatch hnow _, hchanges.tail (hchange now)⟩

/-- Building a box takes the patch through a change as soon as the name of the box is known. -/
theorem create (h : studio.Reaches number patch) (detail : Dico) :
    (studio.create number detail).1.Reaches number patch := by
  obtain ⟨now, hnow, hchanges⟩ := h
  unfold Studio.create
  rw [hnow]
  dsimp only
  split
  · exact ⟨now, hnow, hchanges⟩
  split
  · exact ⟨now, hnow, hchanges⟩
  split
  · exact ⟨_, patch?_setPatch hnow _, hchanges.tail (.reserve now)⟩
  · exact ⟨_, patch?_setPatch ((patch?_provide studio _ _ number).trans hnow) _,
      hchanges.tail (.install now _ rfl)⟩

/-- Drawing a wire takes the patch through a change. -/
theorem connect (h : studio.Reaches number patch) (source outlet target inlet : Nat) :
    (studio.editPatch number fun patch =>
      patch.connect source outlet target inlet).1.Reaches number patch :=
  h.editPatch fun _ _ hlater => .connect source outlet target inlet hlater

/-- Every operation takes the patch through changes. -/
theorem operate (h : studio.Reaches number patch) (operation : Operation) :
    (studio.operate number operation).Reaches number patch := by
  cases operation with
  | create detail => exact h.create detail
  | createFromText text => exact h.create _
  | remove id => exact h.editPatch fun now later hlater => .remove id hlater
  | clear => exact h.clear
  | connect source outlet target inlet => exact h.connect source outlet target inlet
  | disconnect source outlet target inlet =>
    exact h.editPatch fun now later hlater => .disconnect source outlet target inlet hlater
  | read saved =>
    exact readPatch_induction (P := (Reaches · number patch)) (fun _ h => h.clear)
      (fun _ detail h => h.create detail)
      (fun _ source outlet target inlet h => h.connect source outlet target inlet) saved h
  | setChannels inputs outputs => exact h.adjust fun now => .setChannels now inputs outputs
  | start sampleRate blockSize => exact h.adjust fun now => .start now sampleRate blockSize
  | stop => exact h.adjust fun now => .stop now
  | tick => exact h.adjust fun now => .tick now
  | process inputs sizes => exact h.adjust fun now => .process now inputs sizes

/-- Operations one after the other take the patch through changes. -/
theorem operateAll (h : studio.Reaches number patch) (operations : List Operation) :
    (studio.operateAll number operations).Reaches number patch := by
  induction operations generalizing studio with
  | nil => exact h
  | cons operation rest ih => exact ih (h.operate operation)

end Reaches

variable {studio : Studio} {number : Nat} {patch : Patch}

/-- There is one reason only for which a description is of no use. -/
theorem describe_error {detail : Dico} {error : PatchError}
    (h : Patch.describe detail = .error error) : error = .emptyDescription := by
  unfold Patch.describe at h
  dsimp only at h
  split at h
  · split at h
    · exact (Except.error.inj h).symm
    · cases h
  · exact (Except.error.inj h).symm

/-- A box that could be built has the next number, which is used up. -/
theorem create_ok (hpatch : studio.patch? number = some patch) {detail : Dico} {id : Nat}
    (h : (studio.create number detail).2 = .ok id) :
    id = patch.nextId ∧ ∃ later, (studio.create number detail).1.patch? number = some later ∧
      later.nextId = id + 1 ∧ id ∈ later.ids := by
  unfold create at h ⊢
  rw [hpatch] at h ⊢
  dsimp only at h ⊢
  split at h
  · cases h
  next name arguments hdescribe =>
  split at h
  · cases h
  next registration hregistration =>
  split at h
  · cases h
  next planned hplanned =>
  obtain rfl := Except.ok.inj h
  refine ⟨rfl, _, patch?_setPatch ((patch?_provide studio _ _ number).trans hpatch) _, ?_, ?_⟩
  · exact (Patch.sameWiring_rebuildIf _ _).nextId
  · rw [Patch.install, (Patch.sameWiring_rebuildIf _ _).ids]
    simp [Patch.ids, Patch.reserve, assemble]

/-- A box that could not be built has used up a number all the same. -/
theorem create_construction (hpatch : studio.patch? number = some patch) {detail : Dico}
    {name reason : String}
    (h : (studio.create number detail).2 = .error (.construction name reason)) :
    ∃ later, (studio.create number detail).1.patch? number = some later ∧
      later.nextId = patch.nextId + 1 ∧ later.ids = patch.ids := by
  unfold create at h ⊢
  rw [hpatch] at h ⊢
  dsimp only at h ⊢
  split at h
  · next error hdescribe =>
    obtain rfl := Except.error.inj h
    cases describe_error hdescribe
  next described arguments hdescribe =>
  split at h
  · cases h
  next registration hregistration =>
  split at h
  · next failure hplanned =>
    exact ⟨_, patch?_setPatch hpatch _, rfl, rfl⟩
  · cases h

/-- Whatever is done to a patch that was empty, its wires hold and its boxes stand in ascending order.
Whatever is done to it from then on, a number that has been given out stands for the same box as long as
that is there, and for none afterwards. The next number is taken by a box that could be built, and by one
that could not be built too. -/
theorem operations_keep_wiring (studio : Studio) (number : Nat)
    (hempty : studio.patch? number = some {}) (before after : List Operation) :
    ∃ patch later,
      (studio.operateAll number before).patch? number = some patch ∧
      ((studio.operateAll number before).operateAll number after).patch? number = some later ∧
      patch.Wired ∧ patch.Continues later ∧
      (∀ detail id, ((studio.operateAll number before).create number detail).2 = .ok id →
        id = patch.nextId ∧ ∃ next,
          ((studio.operateAll number before).create number detail).1.patch? number = some next ∧
            next.nextId = id + 1 ∧ id ∈ next.ids) ∧
      ∀ detail name reason, ((studio.operateAll number before).create number detail).2 =
          .error (.construction name reason) →
        ∃ next, ((studio.operateAll number before).create number detail).1.patch? number = some next ∧
          next.nextId = patch.nextId + 1 ∧ next.ids = patch.ids := by
  have hstart : studio.Reaches number {} := ⟨{}, hempty, .refl⟩
  obtain ⟨patch, hpatch, hchanges⟩ := hstart.operateAll before
  have hwired := (Patch.wired_of_changes Patch.wired_empty hchanges).1
  have hreached : (studio.operateAll number before).Reaches number patch := ⟨patch, hpatch, .refl⟩
  obtain ⟨later, hlater, hlaterChanges⟩ := hreached.operateAll after
  exact ⟨patch, later, hpatch, hlater, hwired, (Patch.wired_of_changes hwired hlaterChanges).2,
    fun _ _ h => create_ok hpatch h, fun _ _ _ h => create_construction hpatch h⟩

/-- A studio with one patch, which is empty. -/
def fresh : Studio := { patches := [(0, {})], nextPatch := 1 }

/-- All its patches are empty. -/
theorem eq_empty_of_fresh {number : Nat} {patch : Patch} (hpatch : fresh.patch? number = some patch) :
    patch = {} := by
  obtain ⟨entry, hentry, rfl⟩ := Option.map_eq_some_iff.mp hpatch
  have hmem : entry ∈ fresh.patches := List.mem_of_find?_eq_some hentry
  rw [List.mem_singleton.mp hmem]

/-- Two boxes get the first two numbers, and the box that is built after they are gone gets the
third. -/
theorem operations_keep_wiring_fresh :
    ∃ patch later,
      (fresh.operateAll 0 [.createFromText "osc~ 440", .createFromText "dac~",
        .connect 0 0 1 0]).patch? 0 = some patch ∧
      ((fresh.operateAll 0 [.createFromText "osc~ 440", .createFromText "dac~",
        .connect 0 0 1 0]).operateAll 0 [.clear, .createFromText "print"]).patch? 0 = some later ∧
      patch.Wired ∧ patch.Continues later ∧ patch.ids = [0, 1] ∧ later.ids = [2] := by
  obtain ⟨patch, later, hpatch, hlater, hwired, hcontinues, -⟩ :=
    operations_keep_wiring fresh 0 rfl [.createFromText "osc~ 440", .createFromText "dac~",
      .connect 0 0 1 0] [.clear, .createFromText "print"]
  have hids : ((fresh.operateAll 0 [.createFromText "osc~ 440", .createFromText "dac~",
      .connect 0 0 1 0]).patch? 0).map Patch.ids = some [0, 1] := by decide +kernel
  have hlaterIds : (((fresh.operateAll 0 [.createFromText "osc~ 440", .createFromText "dac~",
      .connect 0 0 1 0]).operateAll 0 [.clear, .createFromText "print"]).patch? 0).map Patch.ids =
        some [2] := by decide +kernel
  rw [hpatch] at hids
  rw [hlater] at hlaterIds
  exact ⟨patch, later, hpatch, hlater, hwired, hcontinues, Option.some.inj hids,
    Option.some.inj hlaterIds⟩

end Studio

end Patchbay
