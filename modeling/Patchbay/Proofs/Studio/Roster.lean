import Patchbay.Proofs.Beacon.Registry
import Patchbay.Proofs.Studio.Housing
import Patchbay.Proofs.Timeline.Waiting

/-!
# The roster of a studio

A studio with a list of all boxes ever built in it, and of those of them that are still in their
patches. Building a box enters it into both lists; removing it, clearing its patch and dropping its
patch take it out of the second one. Nothing else does, and nothing brings a box back.

What a studio does can be told from the roster: a handle is alive as long as the box that it was given
out for is present, and the boxes bound to a beacon are those present that were built to hear it, in the
order in which they were built.
-/

namespace Patchbay

/-- A studio, the boxes ever built in it and those still present, both in the order of building. -/
structure Roster where
  studio : Studio
  births : List Birth := []
  present : List Birth := []

namespace Roster

/-- What can happen in a studio that is not shut down, one thing at a time. -/
inductive Step : Roster → Roster → Prop where
  | addPatch (roster : Roster) : Step roster { roster with studio := roster.studio.addPatch.1 }
  | dropPatch (roster : Roster) (number : Nat) : Step roster
    { roster with
      studio := roster.studio.dropPatch number
      present := roster.present.filter fun birth => birth.patch != number }
  | create (roster : Roster) (number : Nat) (detail : Dico) {id : Nat} {name : String}
    {arguments : List Atom} (hcreate : (roster.studio.create number detail).2 = .ok id)
    (hdescribe : Patch.describe detail = .ok (name, arguments)) :
    Step roster
      { studio := (roster.studio.create number detail).1
        births := roster.births ++ [⟨number, name, arguments, detail.keys, id⟩]
        present := roster.present ++ [⟨number, name, arguments, detail.keys, id⟩] }
  | refuse (roster : Roster) (number : Nat) (detail : Dico) {error : PatchError}
    (hcreate : (roster.studio.create number detail).2 = .error error) :
    Step roster { roster with studio := (roster.studio.create number detail).1 }
  | remove (roster : Roster) (number id : Nat) : Step roster
    { roster with
      studio := (roster.studio.editPatch number fun patch => patch.remove id).1
      present := roster.present.filter fun birth => birth.handle != ⟨number, id⟩ }
  | clear (roster : Roster) (number : Nat) : Step roster
    { roster with
      studio := (roster.studio.editPatch number fun patch => .ok patch.clear).1
      present := roster.present.filter fun birth => birth.patch != number }
  /-- An edit of the wires. -/
  | rewire (roster : Roster) (number : Nat) {edit : Patch → Except PatchError Patch}
    (hedit : ∀ patch later, edit patch = .ok later → patch.SameStills later) :
    Step roster { roster with studio := (roster.studio.editPatch number edit).1 }
  /-- A beacon is asked for. -/
  | name (roster : Roster) (name : String) : Step roster
    { roster with
      studio := { roster.studio with registry := (roster.studio.registry.create name).1 } }
  | time {roster : Roster} {timeline : Timeline Task} (hmoves : roster.studio.timeline.Moves timeline) :
    Step roster { roster with studio := { roster.studio with timeline } }
  /-- Something that has nothing to do with who is where: a box reacts, signals are processed, or
  something is noted. -/
  | aside {roster : Roster} {later : Studio} (halike : roster.studio.Alike later) :
    Step roster { roster with studio := later }

/-- One roster comes of another. -/
def Leads : Roster → Roster → Prop := Relation.ReflTransGen Step

/-- What comes of a studio without patches that knows the boxes of a catalog. -/
def Reached (catalog : Catalog) (roster : Roster) : Prop :=
  Leads { studio := { catalog := catalog } } roster

/-- The handles of the boxes that were built to hear the beacon of a name, of those on a list. -/
def receivers (catalog : Catalog) (name : String) (births : List Birth) : List Handle :=
  (births.filter (Birth.hears catalog name)).map Birth.handle

end Roster

namespace Studio

variable {studio later : Studio} {number id : Nat} {patch other : Patch}

/-- A handle is alive if its number is that of a box in its patch. -/
theorem isAlive_iff {handle : Handle} : studio.isAlive handle = true ↔
    ∃ patch, studio.patch? handle.patch = some patch ∧ handle.box ∈ patch.ids := by
  unfold isAlive
  cases studio.patch? handle.patch with
  | none => simp
  | some patch => simp [Patch.isSome_box?_iff]

/-- Another patch in a place changes who is alive in that place only. -/
theorem isAlive_setPatch_iff (hpatch : studio.patch? number = some patch) {handle : Handle} :
    (studio.setPatch number other).isAlive handle = true ↔
      if handle.patch = number then handle.box ∈ other.ids else studio.isAlive handle = true := by
  rw [isAlive_iff]
  split
  · next heq =>
    rw [heq, patch?_setPatch hpatch]
    simp
  · next hne => rw [patch?_setPatch_of_ne other hne, isAlive_iff]

/-- Building a box: the description is of no use, or a number is given out but the box cannot be built,
or the box that was planned is put in, with the service that it needs. -/
theorem create_outcomes (studio : Studio) (number : Nat) (detail : Dico) :
    (∃ error, studio.create number detail = (studio, .error error)) ∨
    (∃ patch error, studio.patch? number = some patch ∧
      studio.create number detail = (studio.setPatch number patch.reserve.1, .error error)) ∨
    ∃ patch name arguments plan number', studio.patch? number = some patch ∧
      Patch.describe detail = .ok (name, arguments) ∧
      Birth.plan? studio.catalog ⟨number, name, arguments, detail.keys, patch.nextId⟩ = some plan ∧
      (studio.provide ⟨number, patch.nextId⟩ plan.service).2 = number' ∧
      studio.create number detail =
        ((studio.provide ⟨number, patch.nextId⟩ plan.service).1.setPatch number
          (patch.reserve.1.install
            (assemble ⟨name, arguments, detail.keys, patch.nextId⟩ plan detail number')),
          .ok patch.nextId) := by
  unfold create
  split
  · exact Or.inl ⟨_, rfl⟩
  next patch hpatch =>
  split
  · exact Or.inl ⟨_, rfl⟩
  next name arguments hdescribe =>
  split
  · exact Or.inl ⟨_, rfl⟩
  next registration hregistration =>
  dsimp only
  split
  · exact Or.inr (Or.inl ⟨patch, _, hpatch, rfl⟩)
  next plan hplan =>
  refine Or.inr (Or.inr ⟨patch, name, arguments, plan, _, hpatch, hdescribe, ?_, rfl, rfl⟩)
  simp only [Birth.plan?, hregistration, Option.bind_some]
  exact congrArg Except.toOption hplan

/-- An edit is refused, or its result is put in the place of the patch and the castaways that are gone
are unbound. -/
theorem editPatch_cases (studio : Studio) (number : Nat) (edit : Patch → Except PatchError Patch) :
    ((studio.editPatch number edit).1 = studio ∧
      ∀ patch, studio.patch? number = some patch → ∃ error, edit patch = .error error) ∨
    ∃ patch other, studio.patch? number = some patch ∧ edit patch = .ok other ∧
      (studio.editPatch number edit).1 = (studio.setPatch number other).prune := by
  unfold editPatch
  split
  · next hnone => exact Or.inl ⟨rfl, fun patch hpatch => absurd hpatch (by simp [hnone])⟩
  next patch hpatch =>
  split
  · next error herror =>
    refine Or.inl ⟨rfl, fun found hfound => ?_⟩
    rw [hpatch, Option.some.injEq] at hfound
    exact ⟨error, hfound ▸ herror⟩
  · next other hother => exact Or.inr ⟨patch, other, hpatch, hother, rfl⟩

/-- Everything stays in its place when the castaways that are gone are unbound. -/
theorem Housed.prune {births : List Birth} (h : studio.Housed births) : studio.prune.Housed births :=
  h.of_registry rfl rfl rfl fun _ _ hfind => hfind

end Studio

namespace Roster

variable {roster later : Roster} {number id : Nat}

/-- The studio and the lists belong together. -/
structure Sound (roster : Roster) : Prop where
  housed : roster.studio.Housed roster.births
  named : roster.studio.registry.Named
  present : roster.present.Sublist roster.births
  alive : ∀ handle, roster.studio.isAlive handle = true ↔
    ∃ birth ∈ roster.present, birth.handle = handle
  known : ∀ birth ∈ roster.births, ∀ name, birth.hears roster.studio.catalog name = true →
    (roster.studio.registry.find? name).isSome = true
  bound : ∀ name number, roster.studio.registry.find? name = some number →
    roster.studio.registry.castaways number =
      (receivers roster.studio.catalog name roster.present).map Castaway.box

namespace Sound

/-- A box that is present is known by its handle. -/
theorem eq_of_handle (h : roster.Sound) {birth other : Birth} (hbirth : birth ∈ roster.births)
    (hother : other ∈ roster.births) (hhandle : birth.handle = other.handle) : birth = other :=
  List.inj_on_of_nodup_map h.housed.handles hbirth hother hhandle

/-- The handle of a box is alive as long as the box is present. -/
theorem isAlive_iff (h : roster.Sound) {birth : Birth} (hbirth : birth ∈ roster.births) :
    roster.studio.isAlive birth.handle = true ↔ birth ∈ roster.present := by
  rw [h.alive]
  constructor
  · rintro ⟨other, hother, hhandle⟩
    exact h.eq_of_handle (h.present.subset hother) hbirth hhandle ▸ hother
  · exact fun hpresent => ⟨birth, hpresent, rfl⟩

/-- When some of the boxes have been taken out of their patches and unbound, the rest is in order. -/
theorem prune (h : roster.Sound) {studio : Studio} (hhoused : studio.prune.Housed roster.births)
    (hcatalog : studio.catalog = roster.studio.catalog)
    (hregistry : studio.registry = roster.studio.registry) {keep : Birth → Bool}
    (halive : ∀ birth ∈ roster.births, studio.isAlive birth.handle = true ↔
      birth ∈ roster.present ∧ keep birth = true)
    (hborn : ∀ handle, studio.isAlive handle = true → roster.studio.isAlive handle = true) :
    Sound { roster with studio := studio.prune, present := roster.present.filter keep } where
  housed := hhoused
  named := (hregistry ▸ h.named).of_grows (Registry.forget_grows _) fun _ => rfl
  present := List.filter_sublist.trans h.present
  alive handle := by
    constructor
    · intro hhandle
      obtain ⟨birth, hbirth, rfl⟩ := (h.alive handle).mp (hborn handle hhandle)
      exact ⟨birth, List.mem_filter.mpr ((halive birth (h.present.subset hbirth)).mp hhandle), rfl⟩
    · rintro ⟨birth, hbirth, rfl⟩
      have hpresent := List.mem_filter.mp hbirth
      exact (halive birth (h.present.subset hpresent.1)).mpr hpresent
  known birth hbirth name hhears := by
    have hcat : studio.prune.catalog = roster.studio.catalog := hcatalog
    have hknown := h.known birth hbirth name (hcat ▸ hhears)
    rw [← hregistry] at hknown
    exact hknown
  bound name number hfound := by
    have hcat : studio.prune.catalog = roster.studio.catalog := hcatalog
    have hfind : roster.studio.registry.find? name = some number := hregistry ▸ hfound
    simp only [hcat]
    rw [Studio.prune, Registry.castaways_forget, hregistry, h.bound name number hfind, receivers,
      List.map_map, List.filter_map, receivers, List.map_map, List.filter_filter, List.filter_filter]
    congr 1
    refine List.filter_congr fun birth hbirth => ?_
    have hkeep : studio.isAlive birth.handle = keep birth := by
      rw [Bool.eq_iff_iff, halive birth (h.present.subset hbirth)]
      simp [hbirth]
    simp only [Function.comp_apply, Bool.not_not, hkeep, Bool.and_comm]

/-- A studio without patches has an empty roster. -/
theorem empty (catalog : Catalog) : Sound { studio := { catalog := catalog } } where
  housed := .empty catalog
  named := nofun
  present := .slnil
  alive _ := ⟨nofun, nofun⟩
  known := nofun
  bound := nofun

/-- A patch may be made. -/
theorem addPatch (h : roster.Sound) : Sound { roster with studio := roster.studio.addPatch.1 } where
  housed := h.housed.addPatch
  named := h.named
  present := h.present
  alive handle := by
    rw [← h.alive, Studio.isAlive_iff, Studio.isAlive_iff, Studio.patch?_addPatch h.housed.recent]
    split
    · next heq =>
      have hnone : roster.studio.patch? handle.patch = none :=
        Studio.patch?_eq_none fun hmem => (h.housed.recent _ hmem).ne heq
      simp [hnone, Patch.ids]
    · rfl
  known := h.known
  bound := h.bound

/-- A patch may be dropped. -/
theorem dropPatch (h : roster.Sound) (number : Nat) : Sound { roster with
    studio := roster.studio.dropPatch number
    present := roster.present.filter fun birth => birth.patch != number } := by
  have halive : ∀ handle, (roster.studio.dropPatch number).isAlive handle = true ↔
      handle.patch ≠ number ∧ roster.studio.isAlive handle = true := by
    intro handle
    rw [Studio.isAlive_iff, Studio.patch?_dropPatch, Studio.isAlive_iff]
    split
    · next heq => simp [heq]
    · next hne => simp [hne]
  refine h.prune (h.housed.dropPatch number) rfl rfl (fun birth hbirth => ?_) fun handle hhandle =>
    ((halive handle).mp hhandle).2
  refine (halive birth.handle).trans ?_
  rw [h.isAlive_iff hbirth, and_comm]
  simp [Birth.handle]

/-- Boxes may be taken out of a patch by an edit that puts none in. -/
theorem edit (h : roster.Sound) (number : Nat) {edit : Patch → Except PatchError Patch}
    (kept : Nat → Bool)
    (hdone : ∀ patch other, edit patch = .ok other → patch.Tagged → patch.Rearranged other ∧
      ∀ id, id ∈ other.ids ↔ id ∈ patch.ids ∧ kept id = true)
    (hrefused : ∀ patch error, edit patch = .error error → ∀ id ∈ patch.ids, kept id = true) :
    Sound { roster with
      studio := (roster.studio.editPatch number edit).1
      present := roster.present.filter fun birth => birth.patch != number || kept birth.site.id } := by
  rcases roster.studio.editPatch_cases number edit with ⟨hsame, hrefuse⟩ |
    ⟨patch, other, hpatch, hother, hdoneSame⟩
  · rw [hsame, List.filter_eq_self.mpr fun birth hbirth => ?_]
    · exact h
    -- Who is present in the patch is kept by an edit that is refused.
    · obtain ⟨patch, hpatch, hid⟩ :=
        Studio.isAlive_iff.mp ((h.isAlive_iff (h.present.subset hbirth)).mpr hbirth)
      by_cases hplace : birth.patch = number
      · obtain ⟨error, herror⟩ := hrefuse patch (hplace ▸ hpatch)
        simp [show kept birth.site.id = true from hrefused patch error herror _ hid]
      · simp [hplace]
  · obtain ⟨hrearranged, hids⟩ := hdone patch other hother (h.housed.tagged number patch hpatch)
    rw [hdoneSame]
    refine h.prune (h.housed.setPatch hpatch hrearranged).prune rfl rfl (fun birth hbirth => ?_)
      fun handle hhandle => ?_
    · rw [Studio.isAlive_setPatch_iff hpatch, ← h.isAlive_iff hbirth]
      by_cases hplace : birth.patch = number
      · rw [if_pos (show birth.handle.patch = number from hplace), hids, Studio.isAlive_iff,
          show birth.handle.patch = number from hplace, hpatch]
        simp [hplace, Birth.handle]
      · rw [if_neg (show ¬ birth.handle.patch = number from hplace)]
        simp [hplace]
    · rw [Studio.isAlive_setPatch_iff hpatch] at hhandle
      split at hhandle
      · next heq =>
        rw [Studio.isAlive_iff, heq]
        exact ⟨patch, hpatch, ((hids _).mp hhandle).1⟩
      · exact hhandle

/-- A box may be removed. -/
theorem remove (h : roster.Sound) (number id : Nat) : Sound { roster with
    studio := (roster.studio.editPatch number fun patch => patch.remove id).1
    present := roster.present.filter fun birth => birth.handle != ⟨number, id⟩ } := by
  have hkeep : (fun birth : Birth => birth.handle != ⟨number, id⟩) =
      fun birth => birth.patch != number || birth.site.id != id := by
    funext birth
    rw [Bool.eq_iff_iff]
    simp [Birth.handle, Classical.or_iff_not_imp_left]
  rw [hkeep]
  refine h.edit number (fun other => other != id) (fun patch other hremove htagged => ?_)
    fun patch error hrefused other hother => ?_
  · refine ⟨Patch.rearranged_remove htagged hremove, fun wanted => ?_⟩
    obtain ⟨box, -, rfl⟩ := Patch.remove_eq_ok hremove
    rw [(Patch.sameWiring_retire _ _).ids, (Patch.sameWiring_rebuildIf _ _).ids]
    simp only [Patch.ids, Patch.without, List.mem_map, List.mem_filter, bne_iff_ne]
    constructor
    · rintro ⟨found, ⟨hfound, hne⟩, rfl⟩
      exact ⟨⟨found, hfound, rfl⟩, hne⟩
    · rintro ⟨⟨found, hfound, rfl⟩, hne⟩
      exact ⟨found, ⟨hfound, hne⟩, rfl⟩
  · refine bne_iff_ne.mpr fun heq => ?_
    obtain ⟨box, -, hbox, -⟩ := Patch.exists_box?_of_mem_ids (heq ▸ hother)
    simp [Patch.remove, hbox] at hrefused

/-- A patch may be cleared. -/
theorem clear (h : roster.Sound) (number : Nat) : Sound { roster with
    studio := (roster.studio.editPatch number fun patch => .ok patch.clear).1
    present := roster.present.filter fun birth => birth.patch != number } := by
  have hkeep : (fun birth : Birth => birth.patch != number) =
      fun birth => birth.patch != number || false := by
    funext birth
    rw [Bool.or_false]
  rw [hkeep]
  refine h.edit number (fun _ => false) (fun patch other hclear _ => ?_) fun _ _ hrefused => ?_
  · obtain rfl := Except.ok.inj hclear
    refine ⟨patch.rearranged_clear, fun id => ?_⟩
    rw [Patch.clear, (Patch.sameWiring_retire _ _).ids, (Patch.sameWiring_rebuildIf _ true).ids]
    simp [Patch.ids]
  · cases hrefused

/-- The wires of a patch may be edited. -/
theorem rewire (h : roster.Sound) (number : Nat) {edit : Patch → Except PatchError Patch}
    (hedit : ∀ patch later, edit patch = .ok later → patch.SameStills later) :
    Sound { roster with studio := (roster.studio.editPatch number edit).1 } := by
  have hsound := h.edit number (fun _ => true) (fun patch other (hdone : edit patch = .ok other) _ =>
    ⟨(hedit patch other hdone).rearranged, fun id => by simp [(hedit patch other hdone).ids]⟩)
    fun _ _ _ _ _ => rfl
  simpa using hsound

/-- A beacon may be asked for. -/
theorem name (h : roster.Sound) (name : String) : Sound { roster with
    studio := { roster.studio with registry := (roster.studio.registry.create name).1 } } where
  housed := h.housed.of_registry rfl rfl rfl fun _ _ hfind => Registry.find?_create_of_some hfind
  named := h.named.create name
  present := h.present
  alive := h.alive
  known birth hbirth other hhears := by
    obtain ⟨number, hnumber⟩ := Option.isSome_iff_exists.mp (h.known birth hbirth other hhears)
    exact Option.isSome_iff_exists.mpr ⟨number, Registry.find?_create_of_some hnumber⟩
  bound other number hfound := by
    by_cases hknown : roster.studio.registry.find? other = none
    -- A beacon that is new has nobody, and nobody was built to hear it.
    · have hname : name = other := by
        by_contra hne
        rw [Registry.find?_create_of_ne _ hne, hknown] at hfound
        cases hfound
      subst hname
      rw [Registry.find?_create_self, Option.some.injEq] at hfound
      rw [← hfound, Registry.castaways_create_new hknown, receivers, List.filter_eq_nil_iff.mpr]
      · rfl
      · intro birth hbirth hhears
        have hsome := h.known birth (h.present.subset hbirth) name hhears
        rw [hknown] at hsome
        cases hsome
    · obtain ⟨old, hold⟩ := Option.ne_none_iff_exists'.mp hknown
      have hsame : some old = some number :=
        (Registry.find?_create_of_some hold).symm.trans hfound
      rw [Registry.castaways_create, ← Option.some.inj hsame]
      exact h.bound other old hold

/-- Time may pass. -/
theorem time (h : roster.Sound) (timeline : Timeline Task) :
    Sound { roster with studio := { roster.studio with timeline } } :=
  ⟨h.housed.of_registry rfl rfl rfl fun _ _ hfind => hfind, h.named, h.present, h.alive, h.known,
    h.bound⟩

/-- What has nothing to do with who is where may happen. -/
theorem aside (h : roster.Sound) {studio : Studio} (halike : roster.studio.Alike studio) :
    Sound { roster with studio := studio } where
  housed := h.housed.alike halike
  named := halike.registry ▸ h.named
  present := h.present
  alive handle := by rw [halike.isAlive, h.alive]
  known birth hbirth name hhears := by
    rw [halike.registry]
    exact h.known birth hbirth name (halike.catalog ▸ hhears)
  bound name number hfound := by
    rw [halike.registry] at hfound ⊢
    rw [halike.catalog]
    exact h.bound name number hfound

/-- A number may be given out for a box that cannot be built. -/
theorem refuse (h : roster.Sound) {studio : Studio} {detail : Dico} {error : PatchError}
    (hcreate : roster.studio.create number detail = (studio, .error error)) :
    Sound { roster with studio := studio } := by
  rcases roster.studio.create_outcomes number detail with ⟨_, heq⟩ | ⟨patch, _, hpatch, heq⟩ |
    ⟨_, _, _, _, _, -, -, -, -, heq⟩
  · obtain ⟨rfl, -⟩ := Prod.mk.inj (heq.symm.trans hcreate)
    exact h
  · obtain ⟨rfl, -⟩ := Prod.mk.inj (heq.symm.trans hcreate)
    refine ⟨h.housed.setPatch hpatch ⟨.refl _, Nat.le_succ _⟩, h.named, h.present, fun handle => ?_,
      h.known, h.bound⟩
    rw [← h.alive, Studio.isAlive_setPatch_iff hpatch]
    split
    · next hplace =>
      rw [Studio.isAlive_iff, hplace, hpatch]
      simp [Patch.ids, Patch.reserve]
    · rfl
  · cases (Prod.mk.inj (heq.symm.trans hcreate)).2

/-- A box may be put into a patch under the next number, and bound to the beacon that it hears. -/
theorem install (h : roster.Sound) {patch : Patch} (hpatch : roster.studio.patch? number = some patch)
    {box : Box} (hid : box.id = patch.nextId) {birth : Birth}
    (hhandle : birth.handle = ⟨number, patch.nextId⟩)
    (hstands : birth.Stands roster.studio.catalog roster.studio.registry box.post)
    {registry : Registry Castaway} (hnamed : registry.Named)
    (hfind : ∀ name, registry.find? name = roster.studio.registry.find? name)
    (hknown : ∀ name, birth.hears roster.studio.catalog name = true →
      (registry.find? name).isSome = true)
    (hbound : ∀ name number, registry.find? name = some number → registry.castaways number =
      roster.studio.registry.castaways number ++
        (receivers roster.studio.catalog name [birth]).map Castaway.box) :
    Sound {
      studio := { roster.studio.setPatch number (patch.reserve.1.install box) with registry }
      births := roster.births ++ [birth]
      present := roster.present ++ [birth] } where
  housed := (h.housed.install hpatch hid hhandle hstands).of_registry rfl rfl rfl
    fun name number hfound => (hfind name).trans hfound
  named := hnamed
  present := h.present.append_right _
  alive handle := by
    have hids : (patch.reserve.1.install box).ids = patch.ids ++ [patch.nextId] := by
      rw [Patch.install, (Patch.sameWiring_rebuildIf _ _).ids]
      simp [Patch.ids, Patch.reserve, hid]
    have halive : (roster.studio.setPatch number (patch.reserve.1.install box)).isAlive handle = true ↔
        roster.studio.isAlive handle = true ∨ birth.handle = handle := by
      rw [Studio.isAlive_setPatch_iff hpatch, hhandle]
      split
      · next hplace =>
        rw [Studio.isAlive_iff, hplace, hpatch, hids]
        obtain ⟨place, wanted⟩ := handle
        obtain rfl : place = number := hplace
        simp [eq_comm]
      · next hplace =>
        refine (or_iff_left ?_).symm
        rintro rfl
        exact hplace rfl
    refine halive.trans ?_
    rw [h.alive]
    simp only [List.mem_append, List.mem_singleton, or_and_right, exists_or, exists_eq_left]
  known := by
    refine List.forall_mem_append.mpr ⟨fun old hold name hhears => ?_, List.forall_mem_singleton.mpr hknown⟩
    show (registry.find? name).isSome = true
    rw [hfind]
    exact h.known old hold name hhears
  bound name wanted hfound := by
    show registry.castaways wanted = _
    rw [hbound name wanted hfound, h.bound name wanted (hfind name ▸ hfound), ← List.map_append,
      receivers, receivers, receivers, ← List.map_append, ← List.filter_append]
    rfl

/-- A box that hears no beacon may be put into a patch. -/
theorem install_deaf (h : roster.Sound) {patch : Patch} (hpatch : roster.studio.patch? number = some patch)
    {box : Box} (hid : box.id = patch.nextId) {birth : Birth}
    (hhandle : birth.handle = ⟨number, patch.nextId⟩)
    (hstands : birth.Stands roster.studio.catalog roster.studio.registry box.post)
    (hdeaf : ∀ name, birth.hears roster.studio.catalog name = false) :
    Sound {
      studio := roster.studio.setPatch number (patch.reserve.1.install box)
      births := roster.births ++ [birth]
      present := roster.present ++ [birth] } := by
  refine h.install hpatch hid hhandle hstands h.named (fun _ => rfl) (fun name hhears => ?_)
    fun name wanted _ => ?_
  · rw [hdeaf] at hhears
    cases hhears
  · simp [receivers, hdeaf]

/-- A box that hears a beacon may be put into a patch and be bound to the beacon. -/
theorem install_hearer (h : roster.Sound) {patch : Patch}
    (hpatch : roster.studio.patch? number = some patch) {box : Box} (hid : box.id = patch.nextId)
    {birth : Birth} (hhandle : birth.handle = ⟨number, patch.nextId⟩)
    (hstands : birth.Stands roster.studio.catalog roster.studio.registry box.post) {beacon : String}
    {wanted : Nat} (hfind : roster.studio.registry.find? beacon = some wanted)
    (hhears : ∀ name, birth.hears roster.studio.catalog name = true ↔ beacon = name) :
    Sound {
      studio := { roster.studio.setPatch number (patch.reserve.1.install box) with
        registry := roster.studio.registry.bind wanted (.box birth.handle) }
      births := roster.births ++ [birth]
      present := roster.present ++ [birth] } := by
  have hfresh : Castaway.box birth.handle ∉ roster.studio.registry.castaways wanted := by
    rw [h.bound beacon wanted hfind, receivers, List.map_map]
    intro hmem
    obtain ⟨old, hold, hsame⟩ := List.mem_map.mp hmem
    have hborn := h.present.subset (List.mem_filter.mp hold).1
    exact h.housed.fresh hpatch old hborn ((Castaway.box.inj hsame).trans hhandle)
  refine h.install hpatch hid hhandle hstands
    (h.named.of_grows (Registry.update_grows _ _) fun _ => rfl) (fun _ => rfl) (fun name hname => ?_)
    fun name other hother => ?_
  · exact (hhears name).mp hname ▸ Option.isSome_iff_exists.mpr ⟨wanted, hfind⟩
  · refine (Registry.castaways_bind_new h.named hfind hfresh hother).trans ?_
    congr 1
    by_cases hsame : beacon = name
    · simp [receivers, hhears, hsame]
    · simp [receivers, hhears, hsame]

/-- A box may be built. -/
theorem create (h : roster.Sound) {studio : Studio} {detail : Dico} {name : String}
    {arguments : List Atom} (hcreate : roster.studio.create number detail = (studio, .ok id))
    (hdescribe : Patch.describe detail = .ok (name, arguments)) :
    Sound {
      studio := studio
      births := roster.births ++ [⟨number, name, arguments, detail.keys, id⟩]
      present := roster.present ++ [⟨number, name, arguments, detail.keys, id⟩] } := by
  rcases roster.studio.create_outcomes number detail with ⟨_, heq⟩ | ⟨_, _, -, heq⟩ |
    ⟨patch, found, others, plan, service, hpatch, hfound, hplan, hservice, heq⟩
  · cases (Prod.mk.inj (heq.symm.trans hcreate)).2
  · cases (Prod.mk.inj (heq.symm.trans hcreate)).2
  obtain ⟨rfl, hid⟩ := Prod.mk.inj (heq.symm.trans hcreate)
  obtain rfl := Except.ok.inj hid
  obtain ⟨rfl, rfl⟩ := Prod.mk.inj (Except.ok.inj (hdescribe.symm.trans hfound))
  set birth : Birth := ⟨number, name, arguments, detail.keys, patch.nextId⟩
  have hhears : ∀ other, birth.hears roster.studio.catalog other = (plan.service == .listen other) := by
    intro other
    rw [Birth.hears, hplan, Option.any_some]
  cases hneeds : plan.service with
  | none | clock =>
    simp only [hneeds] at hservice hhears
    refine h.install_deaf hpatch rfl rfl ⟨plan, service, hplan, rfl, fun other hspeak => ?_⟩ hhears
    cases hneeds.symm.trans hspeak
  | speak beacon =>
    simp only [hneeds] at hservice hhears
    refine (h.name beacon).install_deaf hpatch rfl rfl ⟨plan, service, hplan, rfl, fun other hspeak => ?_⟩
      hhears
    obtain rfl := Service.speak.inj (hneeds.symm.trans hspeak)
    exact hservice ▸ Registry.find?_create_self _ _
  | listen beacon =>
    simp only [hneeds] at hservice hhears
    refine (h.name beacon).install_hearer hpatch rfl rfl
      ⟨plan, service, hplan, rfl, fun other hspeak => ?_⟩ (Registry.find?_create_self _ _) fun other => ?_
    · cases hneeds.symm.trans hspeak
    · exact (Bool.eq_iff_iff.mp (hhears other)).trans (beq_iff_eq.trans (Service.listen.injEq _ _).to_iff)

/-- Whatever happens, the studio and the lists belong together. -/
theorem step (h : roster.Sound) (hstep : Step roster later) : later.Sound := by
  cases hstep with
  | addPatch => exact h.addPatch
  | dropPatch number => exact h.dropPatch number
  | create number detail hcreate hdescribe => exact h.create (Prod.ext rfl hcreate) hdescribe
  | refuse number detail hcreate => exact h.refuse (Prod.ext rfl hcreate)
  | remove number id => exact h.remove number id
  | clear number => exact h.clear number
  | rewire number hedit => exact h.rewire number hedit
  | name name => exact h.name name
  | time hmoves => exact h.time _
  | aside halike => exact h.aside halike

theorem leads (h : roster.Sound) (hleads : roster.Leads later) : later.Sound := by
  induction hleads with
  | refl => exact h
  | tail _ hstep ih => exact ih.step hstep

end Sound

/-- The roster of every studio that can be reached is sound. -/
theorem Reached.sound {catalog : Catalog} (h : Reached catalog roster) : roster.Sound :=
  (Sound.empty catalog).leads h

end Roster

end Patchbay
