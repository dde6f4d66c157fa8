import Patchbay.Proofs.Box.Registering

/-!
# What names stand for

An alias is made of a name that is known already, be it an alias itself, and takes over everything but
the name. So following the aliases from any name ends at a box that was registered under the name in its
own description, and there stand the same description and the same model. Catalogs list their boxes in
the order in which they were registered, and leave out the aliases.
-/

namespace Patchbay.Catalog

/-- The descriptions, of those that a catalog is asked to list, whose names are free. -/
def free (catalog : Catalog) (descriptors : List Descriptor) : List Descriptor :=
  descriptors.filter fun descriptor => !catalog.has descriptor.name

/-- The descriptions of the boxes that a request registers. -/
def news (catalog : Catalog) : Request → List Descriptor
  | .wish (.box descriptor _) => catalog.free [descriptor]
  | .wish (.nickname _ _) => []
  | .builtins => catalog.free (builtins.map Prod.fst)

/-- The descriptions of boxes in the order in which they are registered. -/
def registered : Catalog → List Request → List Descriptor
  | _, [] => []
  | catalog, request :: rest => catalog.news request ++ registered (catalog.grant request) rest

/-- Following the aliases from a name ends at the name of a box. -/
inductive StandsFor (catalog : Catalog) : String → String → Prop where
  | itself {name : String} {registration : Registration} (h : catalog.get? name = some registration)
    (hbox : registration.aliasOf? = none) : StandsFor catalog name name
  | through {name target origin : String} {registration : Registration}
    (h : catalog.get? name = some registration) (halias : registration.aliasOf? = some target)
    (hrest : StandsFor catalog target origin) : StandsFor catalog name origin

variable {catalog later : Catalog}

/-! ### What names stand for -/

/-- What stands under the names of a catalog. The box that a name stands for was registered under the
name in its own description. -/
structure Sound (catalog : Catalog) : Prop where
  nodup : (Keyed.keys catalog).Nodup
  standsFor : ∀ name registration, catalog.get? name = some registration →
    catalog.StandsFor name registration.descriptor.name
  origin : ∀ name registration, catalog.get? name = some registration →
    catalog.get? registration.descriptor.name = some { registration with aliasOf? := none }

/-- A name goes on to stand for the same box. -/
theorem StandsFor.of_start {name origin : String} (h : catalog.StandsFor name origin)
    (hstart : catalog <+: later) : later.StandsFor name origin := by
  induction h with
  | itself h hbox => exact .itself (get?_of_start hstart h) hbox
  | through h halias _ ih => exact .through (get?_of_start hstart h) halias ih

/-- No name stands for two boxes. -/
theorem StandsFor.unique {name origin other : String} (h : catalog.StandsFor name origin)
    (hother : catalog.StandsFor name other) : origin = other := by
  induction h with
  | itself h hbox =>
    cases hother with
    | itself => rfl
    | through hagain halias =>
      obtain rfl := Option.some.inj (h.symm.trans hagain)
      rw [hbox] at halias
      cases halias
  | through h halias _ ih =>
    cases hother with
    | itself hagain hbox =>
      obtain rfl := Option.some.inj (h.symm.trans hagain)
      rw [hbox] at halias
      cases halias
    | through hagain hother hrest =>
      obtain rfl := Option.some.inj (h.symm.trans hagain)
      obtain rfl := Option.some.inj (halias.symm.trans hother)
      exact ih hrest

/-- What is found once a name was added was there before, or is what was added. -/
theorem get?_concat {name added : String} {registration new : Registration}
    (h : Keyed.get? (catalog ++ [(added, new)]) name = some registration) :
    catalog.get? name = some registration ∨ name = added ∧ registration = new := by
  rw [Keyed.get?_append, Option.or_eq_some_iff] at h
  refine h.imp_right fun ⟨_, hlast⟩ => ?_
  obtain ⟨rfl, rfl⟩ := Prod.mk.inj (List.mem_singleton.mp (Keyed.mem_of_get? hlast))
  exact ⟨rfl, rfl⟩

/-- What was added under a free name is found there. -/
theorem get?_added {name : String} (hnew : name ∉ catalog.keys) (registration : Registration) :
    Keyed.get? (catalog ++ [(name, registration)]) name = some registration := by
  rw [Keyed.get?_append, Keyed.get?_eq_none hnew, Option.none_or]
  exact if_pos rfl

theorem sound_nil : Sound [] := ⟨List.nodup_nil, nofun, nofun⟩

/-- A name may be added if it stands for a box. -/
theorem Sound.concat (h : catalog.Sound) {added : String} {new : Registration}
    (hnew : added ∉ catalog.keys)
    (hstandsFor : StandsFor (catalog ++ [(added, new)]) added new.descriptor.name)
    (horigin : Keyed.get? (catalog ++ [(added, new)]) new.descriptor.name =
      some { new with aliasOf? := none }) : Sound (catalog ++ [(added, new)]) := by
  have hstart : catalog <+: catalog ++ [(added, new)] := List.prefix_append _ _
  refine ⟨?_, fun name registration hname => ?_, fun name registration hname => ?_⟩
  · rw [← Keyed.set_of_notMem hnew]
    exact Keyed.nodup_set h.nodup added new
  · rcases get?_concat hname with hold | ⟨rfl, rfl⟩
    · exact (h.standsFor name registration hold).of_start hstart
    · exact hstandsFor
  · rcases get?_concat hname with hold | ⟨rfl, rfl⟩
    · exact get?_of_start hstart (h.origin name registration hold)
    · exact horigin

/-- A box stands for itself, and an alias for what its target stands for. -/
theorem Sound.adds (h : catalog.Sound) {wish : Wish} (hadds : catalog.Adds wish later) :
    later.Sound := by
  cases hadds with
  | box descriptor model hnew =>
    have hadded := get?_added hnew ⟨descriptor, model, none⟩
    exact h.concat hnew (.itself hadded rfl) hadded
  | @nickname added target original hnew htarget =>
    have hstart : catalog <+: catalog ++ [(added, { original with aliasOf? := some target })] :=
      List.prefix_append _ _
    have hadded := get?_added hnew { original with aliasOf? := some target }
    have hrest := (h.standsFor target original htarget).of_start hstart
    have horigin := get?_of_start hstart (h.origin target original htarget)
    exact h.concat hnew (.through hadded rfl hrest) horigin

theorem Sound.leads (h : catalog.Sound) (hleads : catalog.Leads later) : later.Sound := by
  induction hleads with
  | refl => exact h
  | tail _ hadds ih =>
    obtain ⟨wish, hadds⟩ := hadds
    exact ih.adds hadds

/-! ### The list of descriptions -/

/-- What is added behind a catalog is listed behind what it lists. -/
theorem descriptors_append (catalog more : Catalog) :
    descriptors (catalog ++ more) = catalog.descriptors ++ descriptors more := by
  rw [descriptors, List.map_append, List.filter_append, List.map_append, descriptors, descriptors]

/-- A box is listed last if its name was free, and an alias is not listed. -/
theorem descriptors_wish (catalog : Catalog) (wish : Wish) :
    (catalog.grant (.wish wish)).descriptors = catalog.descriptors ++ catalog.news (.wish wish) := by
  rw [grant]
  cases hwish : catalog.wish? wish with
  | some later =>
    rw [Option.getD_some]
    cases adds_of_wish? hwish with
    | box descriptor model hnew =>
      have hfree : catalog.has descriptor.name = false :=
        Bool.eq_false_iff.mpr fun htaken => hnew (Keyed.has_iff.mp htaken)
      rw [descriptors_append, news, free, List.filter_cons, hfree]
      rfl
    | nickname name hnew htarget =>
      rw [descriptors_append]
      rfl
  | none =>
    rw [Option.getD_none]
    cases wish with
    | box descriptor model =>
      have htaken : catalog.has descriptor.name = true := by
        by_contra hfree
        rw [wish?, register?, if_neg hfree] at hwish
        cases hwish
      rw [news, free, List.filter_cons, htaken]
      exact (List.append_nil _).symm
    | nickname => exact (List.append_nil _).symm

/-- A wish leaves the other names as free as they are. -/
theorem has_wish_of_ne {wish : Wish} {name : String} (hne : name ≠ wish.name) :
    (catalog.grant (.wish wish)).has name = catalog.has name := by
  rw [grant]
  cases hwish : catalog.wish? wish with
  | none => rfl
  | some later =>
    rw [Option.getD_some, Bool.eq_iff_iff, Keyed.has_iff, Keyed.has_iff, (adds_of_wish? hwish).keys,
      List.mem_append, List.mem_singleton, or_iff_left hne]

/-- Boxes of different names are listed in their order, as far as their names are free. -/
theorem descriptors_boxes {boxes : List (Descriptor × Model)}
    (h : (boxes.map fun entry => entry.1.name).Nodup) (catalog : Catalog) :
    (catalog.wishAll (boxes.map fun entry => .box entry.1 entry.2)).descriptors =
      catalog.descriptors ++ catalog.free (boxes.map Prod.fst) := by
  induction boxes generalizing catalog with
  | nil => exact (List.append_nil _).symm
  | cons first rest ih =>
    rw [List.map_cons, List.nodup_cons] at h
    have hfree : (catalog.grant (.wish (.box first.1 first.2))).free (rest.map Prod.fst) =
        catalog.free (rest.map Prod.fst) := by
      refine List.filter_congr fun descriptor hdescriptor => ?_
      obtain ⟨entry, hentry, rfl⟩ := List.mem_map.mp hdescriptor
      have hne : entry.1.name ≠ first.1.name := fun heq =>
        h.1 (heq ▸ List.mem_map_of_mem hentry)
      rw [has_wish_of_ne hne]
    rw [List.map_cons, wishAll_cons, ih h.2, hfree, descriptors_wish, news, List.append_assoc]
    congr 1
    exact (List.filter_append (p := fun descriptor : Descriptor => !catalog.has descriptor.name)
      [first.1] (rest.map Prod.fst)).symm

/-- Aliases are not listed. -/
theorem descriptors_nicknames (names : List (String × String)) (catalog : Catalog) :
    (catalog.wishAll (names.map fun entry => .nickname entry.1 entry.2)).descriptors =
      catalog.descriptors := by
  induction names generalizing catalog with
  | nil => rfl
  | cons first rest ih =>
    rw [List.map_cons, wishAll_cons, ih, descriptors_wish]
    exact List.append_nil _

/-- What a request registers is listed behind what was listed before. -/
theorem descriptors_grant (catalog : Catalog) (request : Request) :
    (catalog.grant request).descriptors = catalog.descriptors ++ catalog.news request := by
  cases request with
  | wish wish => exact catalog.descriptors_wish wish
  | builtins =>
    rw [grant_eq_wishAll, Request.wishes, wishAll_append, descriptors_nicknames,
      descriptors_boxes (by decide), news]

/-- So the list is in the order of registration. -/
theorem descriptors_grantAll (catalog : Catalog) (requests : List Request) :
    (catalog.grantAll requests).descriptors = catalog.descriptors ++ catalog.registered requests := by
  induction requests generalizing catalog with
  | nil => exact (List.append_nil _).symm
  | cons request rest ih =>
    rw [grantAll, List.foldl_cons, ← grantAll, ih, descriptors_grant, List.append_assoc, registered]

/-- A description is listed if its box is registered under its name. -/
theorem Sound.mem_descriptors_iff (h : catalog.Sound) {descriptor : Descriptor} :
    descriptor ∈ catalog.descriptors ↔
      ∃ model, catalog.get? descriptor.name = some ⟨descriptor, model, none⟩ := by
  simp only [descriptors, List.mem_map, List.mem_filter, Option.isNone_iff_eq_none]
  constructor
  · rintro ⟨⟨found, model, aliasOf?⟩, ⟨⟨entry, hentry, hregistration⟩, rfl⟩, rfl⟩
    have hfound := h.origin entry.1 _ (Keyed.get?_of_mem h.nodup hentry)
    rw [hregistration] at hfound
    exact ⟨model, hfound⟩
  · rintro ⟨model, hfound⟩
    exact ⟨_, ⟨⟨_, Keyed.mem_of_get? hfound, rfl⟩, rfl⟩, rfl⟩

/-- A box is registered under the name in its description. -/
theorem Sound.name_eq (h : catalog.Sound) {entry : String × Registration} (hentry : entry ∈ catalog)
    (hbox : entry.2.aliasOf? = none) : entry.2.descriptor.name = entry.1 := by
  have hfound := Keyed.get?_of_mem h.nodup hentry
  exact (h.standsFor _ _ hfound).unique (.itself hfound hbox)

/-- No two descriptions that are listed have one name. -/
theorem Sound.nodup_descriptors (h : catalog.Sound) :
    (catalog.descriptors.map Descriptor.name).Nodup := by
  let boxes := catalog.filter fun entry => entry.2.aliasOf?.isNone
  have hnames : catalog.descriptors.map Descriptor.name = boxes.map Prod.fst := by
    rw [descriptors, List.filter_map, List.map_map, List.map_map]
    refine List.map_congr_left fun entry hentry => ?_
    obtain ⟨hentry, hbox⟩ := List.mem_filter.mp hentry
    exact h.name_eq hentry (Option.isNone_iff_eq_none.mp hbox)
  rw [hnames]
  exact h.nodup.sublist (List.filter_sublist.map Prod.fst)

/-- Whatever registrations of boxes and of aliases, and of all that every studio knows, a catalog has been
asked for from the start, in whatever order: its names are distinct, and what is registered under a name
stays, so the first registration of a free name wins for ever, be it that of a box or an alias. Following
the aliases from any name ends at the name of one box, under which the same description and the same
model are registered, and this is the name in the description. The descriptions of boxes are listed in
the order of registration, each once. Registering what every studio knows counts by how much the catalog
grows, changes nothing that was there, and adds nothing once it was done, whatever is asked for in
between. -/
theorem registrations_stay (requests : List Request) :
    let catalog := grantAll [] requests
    (Keyed.keys catalog).Nodup ∧
      (∀ more name registration, catalog.get? name = some registration →
        (catalog.grantAll more).get? name = some registration) ∧
      (∀ descriptor model more, catalog.has descriptor.name = false →
        (catalog.grantAll (.wish (.box descriptor model) :: more)).get? descriptor.name =
          some ⟨descriptor, model, none⟩) ∧
      (∀ name target original more, catalog.has name = false → catalog.get? target = some original →
        (catalog.grantAll (.wish (.nickname name target) :: more)).get? name =
          some { original with aliasOf? := some target }) ∧
      (∀ name registration, catalog.get? name = some registration →
        (∀ origin, catalog.StandsFor name origin ↔ origin = registration.descriptor.name) ∧
        catalog.get? registration.descriptor.name = some { registration with aliasOf? := none }) ∧
      catalog.descriptors = registered [] requests ∧
      (catalog.descriptors.map Descriptor.name).Nodup ∧
      (∀ descriptor, descriptor ∈ catalog.descriptors ↔
        ∃ model, catalog.get? descriptor.name = some ⟨descriptor, model, none⟩) ∧
      catalog.addBuiltins.1.length = catalog.length + catalog.addBuiltins.2 ∧
      catalog <+: catalog.addBuiltins.1 ∧
      ∀ more, (catalog.addBuiltins.1.grantAll more).addBuiltins =
        (catalog.addBuiltins.1.grantAll more, 0) := by
  intro catalog
  have hsound : catalog.Sound := sound_nil.leads (leads_grantAll [] requests)
  have hstays : ∀ {catalog : Catalog} more name registration, catalog.get? name = some registration →
      (catalog.grantAll more).get? name = some registration := fun more name registration =>
    get?_of_start (leads_grantAll _ more).isPrefix
  refine ⟨hsound.nodup, hstays, ?box, ?nickname, ?origin, descriptors_grantAll [] requests,
    hsound.nodup_descriptors, fun descriptor => hsound.mem_descriptors_iff,
    catalog.length_addBuiltins, (catalog.leads_grant .builtins).isPrefix, fun more => ?again⟩
  case box =>
    intro descriptor model more hfree
    exact hstays more _ _ (get?_box hfree model)
  case nickname =>
    intro name target original more hfree htarget
    exact hstays more _ _ (get?_nickname hfree htarget)
  case origin =>
    intro name registration hname
    have horigin := hsound.standsFor name registration hname
    refine ⟨fun origin => ⟨fun hother => hother.unique horigin, ?_⟩, hsound.origin _ _ hname⟩
    rintro rfl
    exact horigin
  case again => exact addBuiltins_again (leads_grantAll _ more).isPrefix

end Patchbay.Catalog
