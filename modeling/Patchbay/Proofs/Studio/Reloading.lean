import Patchbay.Proofs.Studio.Untouched

/-!
# Patches read back sound the same

A patch that is made from texts and has never run or heard a message consists of boxes that are as they
were built. Saved and read back, each is built again from its own text. So the patch that was saved and
the one that was read are rendered with the same samples.
-/

namespace Patchbay

/-- Decide whether a revision brings in only finite numbers and symbols, where it brings in a text, and no
NaN, where it brings in a value. -/
def Revision.isPlain : Revision → Bool
  | .create text => (Patch.spoken (Words.read text.toList)).all Atom.isPlain
  | .set _ _ atoms => atoms.all fun atom => !atom.toDouble.isNaN
  | .remove _ | .clear | .connect _ _ _ _ | .disconnect _ _ _ _ | .reset _ _ | .freeze _ _ _ => true

/-- Whatever doubles it brings in are read back. -/
theorem Revision.isReadable_of_isPlain {revision : Revision} (h : revision.isPlain = true) :
    revision.isReadable = true := by
  cases revision with
  | create text => exact List.all_eq_true.mpr fun atom _ => atom.readsBack_eq_true
  | set id name atoms => exact h
  | remove | clear | connect | disconnect | reset | freeze => rfl

namespace Studio

/-- A studio has a given catalog, the boxes of the patch of a number are as they were built, and signal
processing is in a given state. -/
structure Untouched (studio : Studio) (number : Nat) (catalog : Catalog) (engine : Engine) : Prop where
  known : studio.catalog = catalog
  built : ∃ patch, studio.patch? number = some patch ∧ patch.Untouched catalog engine

namespace Untouched

variable {studio : Studio} {number : Nat} {catalog : Catalog} {engine : Engine}

/-- An edit that brings in nothing leaves this as it is. -/
theorem editPatch (h : studio.Untouched number catalog engine) (hidle : engine.running = false)
    {edit : Patch → Except PatchError Patch}
    (hedit : ∀ patch later, patch.engine.running = false → edit patch = .ok later →
      patch.Holds later) :
    (studio.editPatch number edit).1.Untouched number catalog engine := by
  obtain ⟨patch, hpatch, huntouched⟩ := h.built
  refine ⟨(catalog_editPatch studio number edit).trans h.known, ?_⟩
  cases hresult : edit patch with
  | error error => exact ⟨patch, by simp only [Studio.editPatch, hpatch, hresult], huntouched⟩
  | ok later =>
    have hholds := hedit patch later (huntouched.engine ▸ hidle) hresult
    exact ⟨later, patch?_editPatch hpatch hresult, hholds.untouched huntouched⟩

/-- So does a change that brings in nothing. -/
theorem adjust (h : studio.Untouched number catalog engine) {change : Patch → Patch}
    (hchange : ∀ patch : Patch, patch.Holds (change patch)) :
    (studio.adjust number change).Untouched number catalog engine := by
  obtain ⟨patch, hpatch, huntouched⟩ := h.built
  have hadjusted : studio.adjust number change = studio.setPatch number (change patch) := by
    simp only [Studio.adjust, hpatch]
  rw [hadjusted]
  exact ⟨h.known, change patch, patch?_setPatch hpatch _, (hchange patch).untouched huntouched⟩

/-- So does building a box from a text in which finite numbers and symbols are spoken. -/
theorem create (h : studio.Untouched number catalog engine) (hidle : engine.running = false) {detail : Dico}
    (hhas : Keyed.has detail "text" = true)
    (hplain : ∀ atom ∈ Patch.spoken (detail.get "text"), atom.isPlain = true) :
    (studio.create number detail).1.Untouched number catalog engine := by
  obtain ⟨patch, hpatch, huntouched⟩ := h.built
  refine ⟨(catalog_create studio number detail).trans h.known, ?_⟩
  rcases create_cases hpatch detail with
    ⟨later, hlater, hboxes, hengine⟩ |
      ⟨name, arguments, registration, plan, hdescribe, hregistration, hplan⟩
  · exact ⟨later, hlater, (Patch.Holds.of_subset (hboxes ▸ List.Subset.refl _) hengine).untouched
      huntouched⟩
  obtain ⟨-, service, hlater⟩ := create_eq_ok hpatch hdescribe hregistration hplan
  obtain ⟨hspoken, -⟩ := (Patch.describe_eq_ok_iff hhas).mp hdescribe
  rw [hspoken, List.forall_mem_cons] at hplain
  have hreserved : patch.reserve.1.Untouched catalog engine :=
    ⟨huntouched.boxes, huntouched.engine⟩
  refine ⟨_, hlater, hreserved.install (huntouched.engine ▸ hidle) ?_⟩
  exact ⟨registration, _, plan, service, h.known ▸ hregistration, hplan, hplain.2, rfl, rfl⟩

/-- Every revision leaves the boxes as they were built. -/
theorem revise (h : studio.Untouched number catalog engine) (hidle : engine.running = false)
    {revision : Revision} (hplain : revision.isPlain = true) :
    (studio.revise number revision).Untouched number catalog engine := by
  have hchange : ∀ id (change : Sheet → Sheet),
      (studio.adjust number fun patch => patch.changeSheet id change).Untouched number catalog engine := by
    intro id change
    refine h.adjust fun patch => ?_
    unfold Patch.changeSheet
    split
    · exact .of_subset (List.Subset.refl _) rfl
    · exact patch.holds_updateSheet id _
  cases revision with
  | create text => exact h.create hidle rfl (List.all_eq_true.mp hplain)
  | remove id => exact h.editPatch hidle fun _ _ hpatch => Patch.holds_remove hpatch
  | clear =>
    refine h.editPatch hidle fun patch later hpatch hclear => ?_
    obtain rfl := Except.ok.inj hclear
    exact Patch.holds_clear hpatch
  | connect => exact h.editPatch hidle fun _ _ hpatch => Patch.holds_connect hpatch
  | disconnect => exact h.editPatch hidle fun _ _ hpatch => Patch.holds_disconnect hpatch
  | set id name atoms =>
    refine h.adjust fun patch => ?_
    unfold Patch.setAttribute
    split
    · next later _ heq =>
      split at heq
      · cases heq
      split at heq
      · obtain ⟨rfl, -⟩ := Prod.mk.inj (Except.ok.inj heq)
        exact patch.holds_updateSheet id _
      · obtain ⟨rfl, -⟩ := Prod.mk.inj (Except.ok.inj heq)
        exact .of_subset (List.Subset.refl _) rfl
    · exact .of_subset (List.Subset.refl _) rfl
  | reset id name => exact hchange id _
  | freeze id name on => exact hchange id _

/-- So do any number of revisions. -/
theorem reviseAll (h : studio.Untouched number catalog engine) (hidle : engine.running = false)
    {revisions : List Revision} (hplain : ∀ revision ∈ revisions, revision.isPlain = true) :
    (studio.reviseAll number revisions).Untouched number catalog engine := by
  induction revisions generalizing studio with
  | nil => exact h
  | cons revision revisions ih =>
    exact ih (h.revise hidle (hplain revision List.mem_cons_self))
      fun other hother => hplain other (List.mem_cons_of_mem revision hother)

/-- So does building boxes from descriptions in which finite numbers and symbols are spoken. -/
theorem readBoxes (h : studio.Untouched number catalog engine) (hidle : engine.running = false)
    {details : List Dico} (hhas : ∀ detail ∈ details, Keyed.has detail "text" = true)
    (hplain : ∀ detail ∈ details, ∀ atom ∈ Patch.spoken (detail.get "text"), atom.isPlain = true)
    (renumbering : Renumbering) :
    (Studio.readBoxes number (details.map fun detail => .dico detail)
      (studio, renumbering)).1.Untouched number catalog engine := by
  induction details generalizing studio renumbering with
  | nil => exact h
  | cons detail details ih =>
    rw [List.forall_mem_cons] at hhas hplain
    exact ih (h.create hidle hhas.1 hplain.1) hhas.2 hplain.2 _

/-- So does drawing wires, whatever is read of them. -/
theorem readLinks (h : studio.Untouched number catalog engine) (hidle : engine.running = false)
    (renumbering : Renumbering) (links : List Atom) :
    (Studio.readLinks number renumbering links studio).Untouched number catalog engine := by
  refine readLinks_induction (P := (Untouched · number catalog engine)) ?_ renumbering links h
  exact fun _ _ _ _ _ h => h.editPatch hidle fun _ _ hpatch => Patch.holds_connect hpatch

/-- So does reading a saved patch whose boxes are as they were built. -/
theorem readPatch (h : studio.Untouched number catalog engine) (hidle : engine.running = false)
    {patch : Patch} (hsavable : ∀ box ∈ patch.boxes, box.Savable catalog)
    (huntouched : ∀ box ∈ patch.boxes, box.Untouched catalog) :
    (studio.readPatch number (Notation.rereadEntries patch.write)).1.Untouched number catalog engine := by
  have hclear : Revision.clear.isPlain = true := rfl
  have hcleared := h.revise hidle hclear
  have hhas : ∀ detail ∈ patch.boxes.map Box.detail, Keyed.has detail "text" = true := by
    refine List.forall_mem_map.mpr fun box hbox => ?_
    rw [Keyed.has, (hsavable box hbox).get?_detail.2]
    rfl
  have hplain : ∀ detail ∈ patch.boxes.map Box.detail,
      ∀ atom ∈ Patch.spoken (Dico.get detail "text"), atom.isPlain = true := by
    refine List.forall_mem_map.mpr fun box hbox => ?_
    rw [Dico.get, (hsavable box hbox).get?_detail.2, Option.getD_some, Patch.spoken]
    exact (huntouched box hbox).isPlain_read
  have hbuilt := hcleared.readBoxes hidle hhas hplain []
  rw [List.map_map] at hbuilt
  simp only [Studio.readPatch, Patch.get_boxes_reread]
  exact hbuilt.readLinks hidle _ _

end Untouched

/-- Take an empty patch with any numbers of channels, build boxes in it that every studio knows, from
texts in which finite numbers and symbols are spoken, wire and remove them, and set their attributes.
Before anything runs, save it, and read its text into an empty patch with as many channels. Both patches
are then rendered with the same samples on every channel, whatever the settings and the inputs, and when
they are started, the boxes of the one are executed in the order of the boxes of the other. -/
theorem render_reloaded (studio : Studio) (number inputs outputs : Nat)
    (hstart : studio.patch? number = some (({} : Patch).setChannels inputs outputs))
    (revisions : List Revision) (hplain : ∀ revision ∈ revisions, revision.isPlain = true)
    {patch : Patch} (hpatch : (studio.reviseAll number revisions).patch? number = some patch)
    (hbuiltin : ∀ box ∈ patch.boxes, box.isBuiltin studio.catalog = true) (hfits : patch.Fits)
    (other : Studio) (hcatalog : other.catalog = studio.catalog) (place : Nat)
    (hheld : other.patch? place = some (({} : Patch).setChannels inputs outputs)) :
    ∃ later renumbering,
      (other.readPatch place (Notation.read (Notation.text patch.write))).1.patch? place =
        some later ∧
      (∀ first ∈ patch.ids, ∀ second ∈ patch.ids, first < second →
        renumbering first < renumbering second) ∧
      List.Forall₂ (Box.Copy renumbering) later.boxes patch.boxes ∧
      (∀ settings samples, (later.render Machine.processor settings samples).map Prod.snd =
        (patch.render Machine.processor settings samples).map Prod.snd) ∧
      ∀ sampleRate blockSize, (later.start sampleRate blockSize).1.chainOrder? =
        (patch.start sampleRate blockSize).1.chainOrder?.map (List.map renumbering) := by
  have hreadable : ∀ revision ∈ revisions, revision.isReadable = true := fun revision hmem =>
    Revision.isReadable_of_isPlain (hplain revision hmem)
  obtain ⟨hwired, hsavable⟩ := savable_reviseAll hstart ⟨rfl, rfl⟩ hreadable hpatch hbuiltin
    (Atom.every_readsBack _)
  -- Both patches stay as they were built, the one while it is revised, the other while it is read into.
  have hempty : ∀ catalog, (({} : Patch).setChannels inputs outputs).Untouched catalog
      (({} : Patch).setChannels inputs outputs).engine := fun _ => ⟨List.forall_mem_nil _, rfl⟩
  have hfirst : studio.Untouched number studio.catalog _ := ⟨rfl, _, hstart, hempty _⟩
  obtain ⟨found, hfound, huntouched⟩ := (hfirst.reviseAll rfl hplain).built
  obtain rfl := Option.some.inj (hfound.symm.trans hpatch)
  have hsecond : other.Untouched place studio.catalog _ := ⟨hcatalog, _, hheld, hempty _⟩
  obtain ⟨later, hlater, hbuilt⟩ := (hsecond.readPatch rfl hsavable huntouched.boxes).built
  obtain ⟨again, hagain, -, hcopies, hwires⟩ :=
    readPatch_copies hheld hwired (hcatalog.symm ▸ hsavable) hfits
  obtain rfl := Option.some.inj (hagain.symm.trans hlater)
  have hcounterpart : again.Counterpart (found.placeFrom 0) found :=
    ⟨Box.counterparts_of_copies hcopies hbuilt.boxes huntouched.boxes hbuiltin, hwires, by
      rw [hbuilt.engine, huntouched.engine]
      rfl⟩
  have hplaced := hwired.placed hfits (huntouched.engine ▸ rfl) 0
  have hidle : found.engine.running = false := huntouched.engine ▸ rfl
  refine ⟨again, found.placeFrom 0, ?_, hwired.placeFrom_lt 0, hcopies,
    hcounterpart.render hplaced hidle, fun sampleRate blockSize => ?_⟩
  · rw [Notation.read_text (Patch.keeps_write hsavable)]
    exact hlater
  · exact (hcounterpart.start hplaced hidle sampleRate blockSize).1.chainOrder?

/-- A patch with an oscillator, a level and an output, from which a box has been removed. -/
def tune : List Revision :=
  [.create "osc~ 440.5", .create "print", .create "sig~ 0.25", .create "*~ 2", .create "dac~ 2 1",
    .connect 0 0 3 0, .connect 2 0 3 1, .remove 1, .connect 3 0 4 1, .connect 0 0 4 0]

/-- The tune is read into an empty patch. -/
theorem render_reloaded_tune :
    ∃ patch later renumbering, (fresh.reviseAll 0 tune).patch? 0 = some patch ∧
      (fresh.readPatch 0 (Notation.read (Notation.text patch.write))).1.patch? 0 = some later ∧
      patch.ids = [0, 2, 3, 4] ∧ later.ids = [0, 2, 3, 4].map renumbering ∧
      renumbering 2 < renumbering 3 ∧
      (∀ settings samples, (later.render Machine.processor settings samples).map Prod.snd =
        (patch.render Machine.processor settings samples).map Prod.snd) ∧
      (patch.start 44100.0 64).1.chainOrder? = some [0, 2, 3, 4] ∧
      (later.start 44100.0 64).1.chainOrder? = some ([0, 2, 3, 4].map renumbering) := by
  have htune : ((fresh.reviseAll 0 tune).patch? 0).any (fun patch =>
      decide (patch.ids = [0, 2, 3, 4]) && patch.boxes.all (Box.isBuiltin fresh.catalog) &&
        decide patch.Fits &&
          decide ((patch.start 44100.0 64).1.chainOrder? = some [0, 2, 3, 4])) = true := by
    decide +kernel
  have hempty : fresh.patch? 0 = some (({} : Patch).setChannels 2 2) := rfl
  cases hpatch : (fresh.reviseAll 0 tune).patch? 0 with
  | none =>
    rw [hpatch] at htune
    cases htune
  | some patch =>
    rw [hpatch, Option.any_some] at htune
    simp only [Bool.and_eq_true, decide_eq_true_eq, List.all_eq_true] at htune
    obtain ⟨⟨⟨hids, hbuiltin⟩, hfits⟩, hchain⟩ := htune
    obtain ⟨later, renumbering, hlater, hmonotone, hcopies, hrender, horder⟩ :=
      render_reloaded fresh 0 2 2 hempty tune (by decide +kernel) hpatch hbuiltin hfits fresh rfl 0
        hempty
    rw [hids] at hmonotone
    refine ⟨patch, later, renumbering, rfl, hlater, hids, ?_,
      hmonotone 2 (by decide) 3 (by decide) (by decide), hrender, hchain, ?_⟩
    · rw [← hids, Patch.ids, Patch.ids, Box.map_id_of_copies hcopies, List.map_map]
      rfl
    · rw [horder 44100.0 64, hchain, Option.map_some]

end Studio

end Patchbay
