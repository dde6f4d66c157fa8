import Patchbay.Proofs.Patch.Stills
import Patchbay.Proofs.Studio.Limits

/-!
# Who is where

Every box that could be built was born with a handle: the number of its patch and its own. As long as
its patch is there the box is found under its number, in the patch or among those taken out, with the
name and the text that it was built with, and a speaker with the beacon that it was given.
-/

namespace Patchbay

/-- What a machine is for others. -/
inductive Station where
  | speaker (beacon : Nat)
  | hearer
  | bench
  | plain
deriving DecidableEq

/-- What a machine is for others, which no message changes. -/
def Machine.station : Machine → Station
  | .wireless (.speaker beacon) => .speaker beacon
  | .wireless .hearer => .hearer
  | .bench _ => .bench
  | _ => .plain

theorem Machine.station_silenced (machine : Machine) : machine.silenced.station = machine.station := by
  cases machine <;> rfl

theorem Machine.station_receive (here : Surroundings) (inlet : Nat) (atoms : List Atom)
    (machine : Machine) : (machine.receive here inlet atoms).state.station = machine.station := by
  cases machine with
  | control | timing | audio | bench => rfl
  | wireless state => cases state <;> rfl

theorem Machine.station_tick (here : Surroundings) (machine : Machine) :
    (machine.tick here).state.station = machine.station := by
  cases machine <;> rfl

/-- What stays of a box for ever. -/
structure Post where
  name : String
  text : String
  station : Station

/-- What stays of a box for ever. -/
def Box.post (box : Box) : Post := ⟨box.name, box.text, box.machine.station⟩

theorem Box.post_still (box : Box) : box.still.post = box.post := by
  simp only [post, still, Machine.station_silenced]

namespace Patch

variable {patch later last : Patch}

/-- What stays of the box of a number, be it in the patch or taken out. -/
def post? (patch : Patch) (id : Nat) : Option Post := (patch.boxOrRetired? id).map Box.post

theorem post?_eq_still? (patch : Patch) (id : Nat) : patch.post? id = (patch.still? id).map Box.post := by
  simp only [post?, still?, Option.map_map, Function.comp_def, Box.post_still]

/-- The same boxes are in the patch and out of it, with what stays of them. -/
structure Alike (patch later : Patch) : Prop where
  ids : later.ids = patch.ids
  everyone : later.everyone.map Box.id = patch.everyone.map Box.id
  nextId : later.nextId = patch.nextId
  post? : ∀ id, later.post? id = patch.post? id

namespace Alike

theorem refl (patch : Patch) : patch.Alike patch := ⟨rfl, rfl, rfl, fun _ => rfl⟩

theorem trans (h : patch.Alike later) (hlast : later.Alike last) : patch.Alike last :=
  ⟨hlast.ids.trans h.ids, hlast.everyone.trans h.everyone, hlast.nextId.trans h.nextId,
    fun id => (hlast.post? id).trans (h.post? id)⟩

theorem tagged (h : patch.Alike later) (htagged : patch.Tagged) : later.Tagged :=
  htagged.of_everyone (h.everyone ▸ .refl _) h.nextId.ge

/-- Boxes that look the same are alike. -/
theorem of_sameStills (h : patch.SameStills later) : patch.Alike later where
  ids := h.ids
  everyone := by rw [← map_id_stills, h.everyone, map_id_stills]
  nextId := h.nextId
  post? id := by rw [post?_eq_still?, h.still?, post?_eq_still?]

/-- A box that reacts stays what it is for others. -/
theorem updateBox {id : Nat} {box : Box} (hbox : patch.boxOrRetired? id = some box) {change : Box → Box}
    (hid : ∀ other, (change other).id = other.id) (hpost : (change box).post = box.post) :
    patch.Alike (patch.updateBox id change) where
  ids := by
    rw [Patch.ids, Patch.updateBox, List.map_map, Patch.ids]
    refine List.map_congr_left fun other _ => ?_
    simp only [Function.comp_apply]
    split
    · rw [hid]
    · rfl
  everyone := by
    rw [Patch.everyone, Patch.updateBox, ← List.map_append, List.map_map, Patch.everyone]
    refine List.map_congr_left fun other _ => ?_
    simp only [Function.comp_apply]
    split
    · rw [hid]
    · rfl
  nextId := rfl
  post? wanted := by
    rw [Patch.post?, boxOrRetired?_updateBox _ _ hid, Option.map_map, Patch.post?]
    cases hfound : patch.boxOrRetired? wanted with
    | none => rfl
    | some other =>
      simp only [Option.map_some, Function.comp_apply]
      split
      · next heq =>
        have hwanted : other.id = wanted := by
          rw [boxOrRetired?_eq_find?] at hfound
          simpa using List.find?_some hfound
        rw [← hwanted, heq, hbox, Option.some.injEq] at hfound
        rw [← hfound, hpost]
      · rfl

end Alike

/-- What stays of boxes is found under the same numbers when they were put in another order. -/
theorem Rearranged.post? (h : patch.Rearranged later) (htagged : patch.Tagged) (id : Nat) :
    later.post? id = patch.post? id := by
  rw [post?_eq_still?, h.still? htagged, post?_eq_still?]

/-- What stays of a box that was put in is found under the number that was given out for it. -/
theorem post?_install (htagged : patch.Tagged) {box : Box} (hid : box.id = patch.nextId) (id : Nat) :
    (patch.reserve.1.install box).post? id =
      if id = patch.nextId then some box.post else patch.post? id := by
  rw [post?_eq_still?, still?_install htagged hid, post?_eq_still?]
  split
  · rw [Option.map_some, Box.post_still]
  · rfl

/-- A number is in use if a box is found by it. -/
theorem isSome_box?_iff (patch : Patch) (id : Nat) : (patch.box? id).isSome = true ↔ id ∈ patch.ids := by
  constructor
  · intro h
    obtain ⟨box, hbox⟩ := Option.isSome_iff_exists.mp h
    have hid : box.id = id := by simpa using List.find?_some hbox
    exact hid ▸ List.mem_map_of_mem (List.mem_of_find?_eq_some hbox)
  · intro h
    obtain ⟨box, -, hbox, -⟩ := exists_box?_of_mem_ids h
    rw [hbox, Option.isSome_some]

end Patch

/-- The birth of a box: the patch that it was put into, and what it was built from. -/
structure Birth where
  patch : Nat
  site : Site

namespace Birth

/-- The handle of the box. -/
def handle (birth : Birth) : Handle := ⟨birth.patch, birth.site.id⟩

/-- The plan that the box was built from. -/
def plan? (catalog : Catalog) (birth : Birth) : Option (Plan Machine) :=
  (catalog.get? birth.site.name).bind fun registration =>
    (registration.model.plan birth.site).toOption

/-- The plan of a box is that of a model in the catalog. -/
theorem plan?_eq_some {catalog : Catalog} {birth : Birth} {plan : Plan Machine}
    (h : birth.plan? catalog = some plan) : ∃ registration,
    catalog.get? birth.site.name = some registration ∧
      registration.model.plan birth.site = .ok plan := by
  obtain ⟨registration, hregistration, hplan⟩ := Option.bind_eq_some_iff.mp h
  refine ⟨registration, hregistration, ?_⟩
  cases hmodel : registration.model.plan birth.site with
  | error error =>
    rw [hmodel] at hplan
    cases hplan
  | ok other =>
    rw [hmodel] at hplan
    exact congrArg Except.ok (Option.some.inj hplan)

/-- The text that the box is created from. -/
def text (birth : Birth) : String :=
  String.ofList (Words.write (.symbol birth.site.name :: birth.site.arguments))

/-- What stays of the box is what it was built with. -/
def Stands (catalog : Catalog) (registry : Registry Castaway) (birth : Birth) (post : Post) : Prop :=
  ∃ plan number, birth.plan? catalog = some plan ∧
    post = ⟨birth.site.name, birth.text, (plan.state number).station⟩ ∧
    ∀ name, plan.service = .speak name → registry.find? name = some number

/-- Decide whether the box was bound to the beacon of a name. -/
def hears (catalog : Catalog) (name : String) (birth : Birth) : Bool :=
  (birth.plan? catalog).any fun plan => plan.service == .listen name

/-- What stood stands as long as beacons keep their names. -/
theorem Stands.of_registry {catalog : Catalog} {registry later : Registry Castaway} {birth : Birth}
    {post : Post} (h : birth.Stands catalog registry post)
    (hfind : ∀ name number, registry.find? name = some number → later.find? name = some number) :
    birth.Stands catalog later post := by
  obtain ⟨plan, number, hplan, hpost, hspeak⟩ := h
  exact ⟨plan, number, hplan, hpost, fun name hname => hfind name number (hspeak name hname)⟩

end Birth

namespace Studio

variable {studio later last : Studio} {number : Nat} {patch other : Patch} {births : List Birth}

/-- The numbers of the patches. -/
def numbers (studio : Studio) : List Nat := studio.patches.map Prod.fst

theorem numbers_setPatch (studio : Studio) (number : Nat) (patch : Patch) :
    (studio.setPatch number patch).numbers = studio.numbers := by
  rw [numbers, setPatch, List.map_map, numbers]
  refine List.map_congr_left fun entry _ => ?_
  simp only [Function.comp_apply]
  split
  · next heq => exact heq.symm
  · rfl

theorem mem_numbers_of_patch? (h : studio.patch? number = some patch) : number ∈ studio.numbers := by
  obtain ⟨entry, hentry, -⟩ := Option.map_eq_some_iff.mp h
  have hnumber : entry.1 = number := by simpa using List.find?_some hentry
  exact hnumber ▸ List.mem_map_of_mem (List.mem_of_find?_eq_some hentry)

theorem patch?_eq_none (h : number ∉ studio.numbers) : studio.patch? number = none := by
  cases hpatch : studio.patch? number with
  | none => rfl
  | some patch => exact absurd (mem_numbers_of_patch? hpatch) h

/-- What is found after another patch was put in a place is that patch, or was found before. -/
theorem of_patch?_setPatch (hpatch : studio.patch? number = some patch) {place : Nat} {found : Patch}
    (hfound : (studio.setPatch number other).patch? place = some found) :
    place = number ∧ found = other ∨ place ≠ number ∧ studio.patch? place = some found := by
  by_cases hplace : place = number
  · rw [hplace, patch?_setPatch hpatch, Option.some.injEq] at hfound
    exact Or.inl ⟨hplace, hfound.symm⟩
  · rw [patch?_setPatch_of_ne other hplace] at hfound
    exact Or.inr ⟨hplace, hfound⟩

/-- A new patch is found under the next number, which no other has. -/
theorem patch?_addPatch (hrecent : ∀ number ∈ studio.numbers, number < studio.nextPatch)
    (number : Nat) : studio.addPatch.1.patch? number =
      if number = studio.nextPatch then some {} else studio.patch? number := by
  have hnew : studio.patch? studio.nextPatch = none :=
    patch?_eq_none fun hmem => (hrecent _ hmem).ne rfl
  simp only [patch?, addPatch, List.find?_append, Option.map_eq_none_iff] at hnew ⊢
  split
  · next heq =>
    rw [heq, hnew]
    simp
  · next hne =>
    cases studio.patches.find? fun entry => entry.1 == number with
    | none => simp [Ne.symm hne]
    | some entry => rfl

/-- A patch that was dropped is not found any more. -/
theorem patch?_dropPatch (studio : Studio) (gone number : Nat) :
    (studio.dropPatch gone).patch? number =
      if number = gone then none else studio.patch? number := by
  simp only [patch?, dropPatch, prune, List.find?_filter]
  split
  · next heq =>
    rw [Option.map_eq_none_iff, List.find?_eq_none]
    intro entry _
    simp [heq]
  · next hne =>
    congr 2
    funext entry
    by_cases hentry : entry.1 = number
    · simp [hentry, hne]
    · simp [hentry]

/-- Everything that was born is in its place: boxes have numbers of their own, patches too, all of them
given out, and what is found under the handle of a box is that box. -/
structure Housed (studio : Studio) (births : List Birth) : Prop where
  tagged : ∀ number patch, studio.patch? number = some patch → patch.Tagged
  nodup : studio.numbers.Nodup
  recent : ∀ number ∈ studio.numbers, number < studio.nextPatch
  handles : (births.map Birth.handle).Nodup
  given : ∀ birth ∈ births, birth.patch < studio.nextPatch ∧
    ∀ patch, studio.patch? birth.patch = some patch → birth.site.id < patch.nextId
  stands : ∀ birth ∈ births, ∀ patch, studio.patch? birth.patch = some patch →
    ∃ post, patch.post? birth.site.id = some post ∧ birth.Stands studio.catalog studio.registry post
  born : ∀ number patch id post, studio.patch? number = some patch → patch.post? id = some post →
    ∃ birth ∈ births, birth.handle = ⟨number, id⟩

/-- The same boxes are in the same patches. -/
structure SameBoxes (studio later : Studio) : Prop where
  patches : ∀ number patch, studio.patch? number = some patch →
    ∃ other, later.patch? number = some other ∧ patch.Alike other
  missing : ∀ number, studio.patch? number = none → later.patch? number = none

namespace SameBoxes

theorem of_patches (hpatches : later.patches = studio.patches) : studio.SameBoxes later where
  patches number patch hpatch := ⟨patch, by rwa [patch?, hpatches], .refl patch⟩
  missing number hmissing := by rwa [patch?, hpatches]

theorem trans (h : studio.SameBoxes later) (hlast : later.SameBoxes last) : studio.SameBoxes last where
  patches number patch hpatch := by
    obtain ⟨middle, hmiddle, halike⟩ := h.patches number patch hpatch
    obtain ⟨other, hother, hlastAlike⟩ := hlast.patches number middle hmiddle
    exact ⟨other, hother, halike.trans hlastAlike⟩
  missing number hmissing := hlast.missing number (h.missing number hmissing)

/-- A patch that is there was there, and the same boxes were in it. -/
theorem earlier (h : studio.SameBoxes later) (hother : later.patch? number = some other) :
    ∃ patch, studio.patch? number = some patch ∧ patch.Alike other := by
  cases hpatch : studio.patch? number with
  | none =>
    rw [h.missing number hpatch] at hother
    cases hother
  | some patch =>
    obtain ⟨found, hfound, halike⟩ := h.patches number patch hpatch
    rw [hother, Option.some.injEq] at hfound
    exact ⟨patch, rfl, hfound ▸ halike⟩

/-- The same handles are alive. -/
theorem isAlive (h : studio.SameBoxes later) (handle : Handle) :
    later.isAlive handle = studio.isAlive handle := by
  rw [Studio.isAlive, Studio.isAlive]
  cases hpatch : studio.patch? handle.patch with
  | none => rw [h.missing _ hpatch]
  | some patch =>
    obtain ⟨other, hother, halike⟩ := h.patches _ patch hpatch
    rw [hother, Option.bind_some, Option.bind_some, Bool.eq_iff_iff, Patch.isSome_box?_iff,
      Patch.isSome_box?_iff, halike.ids]

/-- A patch may be put in the place of one that it is like. -/
theorem setPatch (hpatch : studio.patch? number = some patch) (halike : patch.Alike other) :
    studio.SameBoxes (studio.setPatch number other) where
  patches place found hfound := by
    by_cases hplace : place = number
    · subst hplace
      rw [hpatch, Option.some.injEq] at hfound
      exact ⟨other, patch?_setPatch hpatch other, hfound ▸ halike⟩
    · exact ⟨found, by rw [patch?_setPatch_of_ne other hplace, hfound], .refl found⟩
  missing place hmissing := by
    have hplace : place ≠ number := by
      rintro rfl
      rw [hpatch] at hmissing
      cases hmissing
    rw [patch?_setPatch_of_ne other hplace, hmissing]

end SameBoxes

/-- Nothing has happened that has to do with who is where. -/
structure Alike (studio later : Studio) : Prop extends SameBoxes studio later where
  catalog : later.catalog = studio.catalog
  nextPatch : later.nextPatch = studio.nextPatch
  registry : later.registry = studio.registry
  timeline : later.timeline = studio.timeline
  clock : later.clock = studio.clock
  numbers : later.numbers = studio.numbers

namespace Alike

theorem of_patches (hpatches : later.patches = studio.patches) (hcatalog : later.catalog = studio.catalog)
    (hnextPatch : later.nextPatch = studio.nextPatch) (hregistry : later.registry = studio.registry)
    (htimeline : later.timeline = studio.timeline) (hclock : later.clock = studio.clock) :
    studio.Alike later where
  toSameBoxes := .of_patches hpatches
  catalog := hcatalog
  nextPatch := hnextPatch
  registry := hregistry
  timeline := htimeline
  clock := hclock
  numbers := by rw [Studio.numbers, hpatches, Studio.numbers]

theorem refl (studio : Studio) : studio.Alike studio := .of_patches rfl rfl rfl rfl rfl rfl

theorem trans (h : studio.Alike later) (hlast : later.Alike last) : studio.Alike last where
  toSameBoxes := h.toSameBoxes.trans hlast.toSameBoxes
  catalog := hlast.catalog.trans h.catalog
  nextPatch := hlast.nextPatch.trans h.nextPatch
  registry := hlast.registry.trans h.registry
  timeline := hlast.timeline.trans h.timeline
  clock := hlast.clock.trans h.clock
  numbers := hlast.numbers.trans h.numbers

/-- A patch may be put in the place of one that it is like. -/
theorem setPatch (hpatch : studio.patch? number = some patch) (halike : patch.Alike other) :
    studio.Alike (studio.setPatch number other) where
  toSameBoxes := .setPatch hpatch halike
  catalog := rfl
  nextPatch := rfl
  registry := rfl
  timeline := rfl
  clock := rfl
  numbers := numbers_setPatch studio number other

end Alike

namespace Housed

/-- Everything is in its place in an empty studio. -/
theorem empty (catalog : Catalog) : Housed { catalog := catalog } [] where
  tagged := nofun
  nodup := .nil
  recent := nofun
  handles := .nil
  given := nofun
  stands := nofun
  born := nofun

/-- Everything stays in its place when nothing happens to it. -/
theorem alike (h : studio.Housed births) (halike : studio.Alike later) : later.Housed births where
  tagged number other hother := by
    obtain ⟨patch, hpatch, hsame⟩ := halike.earlier hother
    exact hsame.tagged (h.tagged number patch hpatch)
  nodup := halike.numbers ▸ h.nodup
  recent := by
    rw [halike.numbers, halike.nextPatch]
    exact h.recent
  handles := h.handles
  given birth hbirth := by
    refine ⟨halike.nextPatch ▸ (h.given birth hbirth).1, fun other hother => ?_⟩
    obtain ⟨patch, hpatch, hsame⟩ := halike.earlier hother
    exact hsame.nextId ▸ (h.given birth hbirth).2 patch hpatch
  stands birth hbirth other hother := by
    obtain ⟨patch, hpatch, hsame⟩ := halike.earlier hother
    rw [hsame.post?, halike.catalog, halike.registry]
    exact h.stands birth hbirth patch hpatch
  born number other id post hother hpost := by
    obtain ⟨patch, hpatch, hsame⟩ := halike.earlier hother
    exact h.born number patch id post hpatch (hsame.post? id ▸ hpost)

/-- Everything stays in its place if the same patches and beacons are there. -/
theorem of_registry (h : studio.Housed births) (hpatches : later.patches = studio.patches)
    (hcatalog : later.catalog = studio.catalog) (hnextPatch : later.nextPatch = studio.nextPatch)
    (hfind : ∀ name number, studio.registry.find? name = some number →
      later.registry.find? name = some number) : later.Housed births := by
  have hpatch : ∀ number, later.patch? number = studio.patch? number := by
    intro number
    rw [patch?, hpatches, patch?]
  have hnumbers : later.numbers = studio.numbers := by rw [numbers, hpatches, numbers]
  exact {
    tagged := fun number patch hfound => h.tagged number patch (hpatch number ▸ hfound)
    nodup := hnumbers ▸ h.nodup
    recent := by
      rw [hnumbers, hnextPatch]
      exact h.recent
    handles := h.handles
    given := fun birth hbirth => ⟨hnextPatch ▸ (h.given birth hbirth).1,
      fun patch hfound => (h.given birth hbirth).2 patch (hpatch _ ▸ hfound)⟩
    stands := fun birth hbirth patch hfound => by
      obtain ⟨post, hpost, hstands⟩ := h.stands birth hbirth patch (hpatch _ ▸ hfound)
      exact ⟨post, hpost, hcatalog ▸ hstands.of_registry hfind⟩
    born := fun number patch id post hfound => h.born number patch id post (hpatch _ ▸ hfound) }

/-- Boxes may be taken out of a patch, and numbers given out. -/
theorem setPatch (h : studio.Housed births) (hpatch : studio.patch? number = some patch)
    (hrearranged : patch.Rearranged other) : (studio.setPatch number other).Housed births := by
  have htagged := h.tagged number patch hpatch
  refine ⟨fun place found hfound => ?_, ?_, ?_, h.handles, fun birth hbirth => ?_,
    fun birth hbirth found hfound => ?_, fun place found id post hfound hpost => ?_⟩
  · rcases of_patch?_setPatch hpatch hfound with ⟨rfl, rfl⟩ | ⟨-, hfound⟩
    · exact hrearranged.tagged htagged
    · exact h.tagged place found hfound
  · exact numbers_setPatch studio number other ▸ h.nodup
  · rw [numbers_setPatch]
    exact h.recent
  · refine ⟨(h.given birth hbirth).1, fun found hfound => ?_⟩
    rcases of_patch?_setPatch hpatch hfound with ⟨hplace, rfl⟩ | ⟨-, hfound⟩
    · exact ((h.given birth hbirth).2 patch (hplace ▸ hpatch)).trans_le hrearranged.nextId
    · exact (h.given birth hbirth).2 found hfound
  · rcases of_patch?_setPatch hpatch hfound with ⟨hplace, rfl⟩ | ⟨-, hfound⟩
    · rw [hrearranged.post? htagged]
      exact h.stands birth hbirth patch (hplace ▸ hpatch)
    · exact h.stands birth hbirth found hfound
  · rcases of_patch?_setPatch hpatch hfound with ⟨rfl, rfl⟩ | ⟨-, hfound⟩
    · exact h.born place patch id post hpatch (hrearranged.post? htagged id ▸ hpost)
    · exact h.born place found id post hfound hpost

/-- A patch may be made. -/
theorem addPatch (h : studio.Housed births) : studio.addPatch.1.Housed births := by
  have hplaces : ∀ place found, studio.addPatch.1.patch? place = some found →
      place = studio.nextPatch ∧ found = {} ∨ studio.patch? place = some found := by
    intro place found hfound
    rw [patch?_addPatch h.recent] at hfound
    split at hfound
    · next heq => exact Or.inl ⟨heq, (Option.some.inj hfound).symm⟩
    · exact Or.inr hfound
  have hnumbers : studio.addPatch.1.numbers = studio.numbers ++ [studio.nextPatch] := List.map_append
  refine ⟨fun place found hfound => ?_, ?_, fun place hplace => ?_, h.handles, fun birth hbirth => ?_,
    fun birth hbirth found hfound => ?_, fun place found id post hfound hpost => ?_⟩
  · rcases hplaces place found hfound with ⟨-, rfl⟩ | hfound
    · exact ⟨.nil, nofun⟩
    · exact h.tagged place found hfound
  · rw [hnumbers]
    refine List.nodup_append.mpr ⟨h.nodup, List.nodup_singleton _, fun place hplace other hother => ?_⟩
    obtain rfl := List.mem_singleton.mp hother
    exact (h.recent place hplace).ne
  · rw [hnumbers, List.mem_append, List.mem_singleton] at hplace
    rcases hplace with hplace | rfl
    · exact (h.recent place hplace).trans (Nat.lt_succ_self _)
    · exact Nat.lt_succ_self _
  · obtain ⟨hpatch, hid⟩ := h.given birth hbirth
    refine ⟨hpatch.trans (Nat.lt_succ_self _), fun found hfound => ?_⟩
    rcases hplaces _ found hfound with ⟨heq, -⟩ | hfound
    · exact absurd heq hpatch.ne
    · exact hid found hfound
  · rcases hplaces _ found hfound with ⟨heq, -⟩ | hfound
    · exact absurd heq (h.given birth hbirth).1.ne
    · exact h.stands birth hbirth found hfound
  · rcases hplaces place found hfound with ⟨-, rfl⟩ | hfound
    · cases hpost
    · exact h.born place found id post hfound hpost

/-- A patch may be dropped. -/
theorem dropPatch (h : studio.Housed births) (number : Nat) :
    (studio.dropPatch number).Housed births := by
  have hplaces : ∀ place found, (studio.dropPatch number).patch? place = some found →
      studio.patch? place = some found := by
    intro place found hfound
    rw [patch?_dropPatch] at hfound
    split at hfound
    · cases hfound
    · exact hfound
  have hnumbers : (studio.dropPatch number).numbers.Sublist studio.numbers :=
    List.filter_sublist.map Prod.fst
  exact {
    tagged := fun place found hfound => h.tagged place found (hplaces place found hfound)
    nodup := h.nodup.sublist hnumbers
    recent := fun place hplace => h.recent place (hnumbers.subset hplace)
    handles := h.handles
    given := fun birth hbirth => ⟨(h.given birth hbirth).1,
      fun found hfound => (h.given birth hbirth).2 found (hplaces _ found hfound)⟩
    stands := fun birth hbirth found hfound => h.stands birth hbirth found (hplaces _ found hfound)
    born := fun place found id post hfound => h.born place found id post (hplaces place found hfound) }

/-- Nobody has the next number of a patch. -/
theorem fresh (h : studio.Housed births) (hpatch : studio.patch? number = some patch) :
    ∀ old ∈ births, old.handle ≠ ⟨number, patch.nextId⟩ := by
  intro old hold hsame
  obtain ⟨hplace, hid⟩ := Handle.mk.inj hsame
  exact ((h.given old hold).2 patch (hplace ▸ hpatch)).ne hid

/-- A box may be put into a patch under the next number. -/
theorem install (h : studio.Housed births) (hpatch : studio.patch? number = some patch) {box : Box}
    (hid : box.id = patch.nextId) {birth : Birth} (hhandle : birth.handle = ⟨number, patch.nextId⟩)
    (hstands : birth.Stands studio.catalog studio.registry box.post) :
    (studio.setPatch number (patch.reserve.1.install box)).Housed (births ++ [birth]) := by
  obtain ⟨rfl, hsite⟩ := Handle.mk.inj hhandle
  have htagged := h.tagged _ patch hpatch
  have hpost := Patch.post?_install htagged hid
  have hnextId : (patch.reserve.1.install box).nextId = patch.nextId + 1 :=
    (Patch.sameStills_rebuildIf _ _).nextId
  refine ⟨fun place found hfound => ?_, ?_, ?_, ?_, ?_, ?_, fun place found id post hfound hfoundPost => ?_⟩
  · rcases of_patch?_setPatch hpatch hfound with ⟨-, rfl⟩ | ⟨-, hfound⟩
    · exact Patch.tagged_install htagged hid
    · exact h.tagged place found hfound
  · exact numbers_setPatch studio _ _ ▸ h.nodup
  · rw [numbers_setPatch]
    exact h.recent
  · rw [List.map_append]
    refine List.nodup_append.mpr ⟨h.handles, List.nodup_singleton _, fun handle hmem other hother => ?_⟩
    obtain rfl := List.mem_singleton.mp hother
    obtain ⟨old, hold, rfl⟩ := List.mem_map.mp hmem
    exact hhandle ▸ h.fresh hpatch old hold
  · refine List.forall_mem_append.mpr ⟨fun old hold => ?_, List.forall_mem_singleton.mpr ?_⟩
    · refine ⟨(h.given old hold).1, fun found hfound => ?_⟩
      rcases of_patch?_setPatch hpatch hfound with ⟨hplace, rfl⟩ | ⟨-, hfound⟩
      · have hless := (h.given old hold).2 patch (hplace ▸ hpatch)
        omega
      · exact (h.given old hold).2 found hfound
    · refine ⟨h.recent _ (mem_numbers_of_patch? hpatch), fun found hfound => ?_⟩
      rcases of_patch?_setPatch hpatch hfound with ⟨-, rfl⟩ | ⟨hne, -⟩
      · omega
      · exact absurd rfl hne
  · refine List.forall_mem_append.mpr ⟨fun old hold found hfound => ?_,
      List.forall_mem_singleton.mpr fun found hfound => ?_⟩
    · rcases of_patch?_setPatch hpatch hfound with ⟨hplace, rfl⟩ | ⟨-, hfound⟩
      · have hless := (h.given old hold).2 patch (hplace ▸ hpatch)
        rw [hpost, if_neg hless.ne]
        exact h.stands old hold patch (hplace ▸ hpatch)
      · exact h.stands old hold found hfound
    · rcases of_patch?_setPatch hpatch hfound with ⟨-, rfl⟩ | ⟨hne, -⟩
      · exact ⟨box.post, by rw [hpost, if_pos hsite], hstands⟩
      · exact absurd rfl hne
  · rcases of_patch?_setPatch hpatch hfound with ⟨rfl, rfl⟩ | ⟨-, hfound⟩
    · rw [hpost] at hfoundPost
      split at hfoundPost
      · next heq => exact ⟨birth, by simp, by rw [hhandle, heq]⟩
      · obtain ⟨old, hold, hhandleOld⟩ := h.born _ patch id post hpatch hfoundPost
        exact ⟨old, List.mem_append_left _ hold, hhandleOld⟩
    · obtain ⟨old, hold, hhandleOld⟩ := h.born place found id post hfound hfoundPost
      exact ⟨old, List.mem_append_left _ hold, hhandleOld⟩

end Housed

end Studio

end Patchbay
