import Patchbay.Proofs.Studio.Building

/-!
# Patches made from text

A patch in which boxes are built from texts, wired and removed, and whose attributes are set, go back to
their defaults and are frozen. Whatever comes of it, each box still tells how it was built: its text is
its name with its arguments, its inlets and outlets are those of the plan, and its sheet has the outline
of the plan and holds settled values.
-/

namespace Patchbay

/-- What is done to a patch that is made from text. -/
inductive Revision where
  | create (text : String)
  | remove (id : Nat)
  | clear
  | connect (source outlet target inlet : Nat)
  | disconnect (source outlet target inlet : Nat)
  | set (id : Nat) (name : String) (atoms : List Atom)
  | reset (id : Nat) (name : String)
  | freeze (id : Nat) (name : String) (on : Bool)

/-- Decide whether a revision brings in only doubles that are read back from their numerals, where it
brings in a text, and no NaN, where it brings in a value. -/
def Revision.isReadable : Revision → Bool
  | .create text => (Patch.spoken (Words.read text.toList)).all Atom.readsBack
  | .set _ _ atoms => atoms.all fun atom => !atom.toDouble.isNaN
  | _ => true

/-- Change the attributes of a box in the patch. -/
def Patch.changeSheet (patch : Patch) (id : Nat) (change : Sheet → Sheet) : Patch :=
  match patch.box? id with
  | none => patch
  | some _ => patch.updateBox id fun box => { box with sheet := change box.sheet }

namespace Studio

/-- Revise the patch of a number. -/
def revise (studio : Studio) (number : Nat) : Revision → Studio
  | .create text => (studio.createFromText number text).1
  | .remove id => (studio.editPatch number fun patch => patch.remove id).1
  | .clear => (studio.editPatch number fun patch => .ok patch.clear).1
  | .connect source outlet target inlet =>
    (studio.editPatch number fun patch => patch.connect source outlet target inlet).1
  | .disconnect source outlet target inlet =>
    (studio.editPatch number fun patch => patch.disconnect source outlet target inlet).1
  | .set id name atoms => studio.adjust number fun patch =>
    match patch.setAttribute id name atoms with
    | .ok (later, _) => later
    | .error _ => patch
  | .reset id name => studio.adjust number fun patch =>
    patch.changeSheet id fun sheet => (sheet.reset? name).getD sheet
  | .freeze id name on => studio.adjust number fun patch =>
    patch.changeSheet id fun sheet => sheet.freeze name on

/-- Revise the patch of a number again and again. -/
def reviseAll (studio : Studio) (number : Nat) (revisions : List Revision) : Studio :=
  revisions.foldl (fun studio revision => studio.revise number revision) studio

end Studio

/-! ### How a box was built -/

/-- A box tells how it was built: from which arguments by which registration, and by which plan. -/
structure Box.BuiltBy (box : Box) (registration : Registration) (site : Site)
    (plan : Plan Machine) : Prop where
  named : box.name ≠ ""
  plan_eq : registration.model.plan site = .ok plan
  text : box.text = String.ofList (Words.write (.symbol box.name :: site.arguments))
  tokens : ∀ atom ∈ site.arguments, Words.Token atom
  readsBack : ∀ atom ∈ site.arguments, atom.readsBack = true
  inlets : box.inlets = plan.inlets
  outlets : box.outlets = plan.outlets
  sheet : registration.model.isBuiltin = true →
    box.sheet.Sound ∧ box.sheet.outline = plan.sheet.outline

/-- A box was built from text by what its name stands for. -/
def Box.Made (catalog : Catalog) (box : Box) : Prop :=
  ∃ registration site plan, catalog.get? box.name = some registration ∧
    box.BuiltBy registration site plan

/-- The machine of a box does not tell how it was built. -/
theorem Box.made_body {catalog : Catalog} {box : Box} :
    box.body.Made catalog ↔ box.Made catalog := by
  constructor
  · rintro ⟨registration, site, plan, hregistration, h⟩
    exact ⟨registration, site, plan, hregistration, ⟨h.named, h.plan_eq, h.text, h.tokens,
      h.readsBack, h.inlets, h.outlets, h.sheet⟩⟩
  · rintro ⟨registration, site, plan, hregistration, h⟩
    exact ⟨registration, site, plan, hregistration, ⟨h.named, h.plan_eq, h.text, h.tokens,
      h.readsBack, h.inlets, h.outlets, h.sheet⟩⟩

/-- A change of its attributes that keeps a sheet sound, and its outline, does not matter. -/
theorem Box.Made.withSheet {catalog : Catalog} {box : Box} (h : box.Made catalog) {sheet : Sheet}
    (hsheet : box.sheet.Sound → sheet.Sound ∧ sheet.outline = box.sheet.outline) :
    Box.Made catalog { box with sheet } := by
  obtain ⟨registration, site, plan, hregistration, h⟩ := h
  refine ⟨registration, site, plan, hregistration, ⟨h.named, h.plan_eq, h.text, h.tokens,
    h.readsBack, h.inlets, h.outlets, fun hbuiltin => ?_⟩⟩
  obtain ⟨hsound, houtline⟩ := h.sheet hbuiltin
  exact ⟨(hsheet hsound).1, (hsheet hsound).2.trans houtline⟩

/-- Nothing is restored from a description that has none of the attributes. -/
theorem Sheet.restore_of_absent {sheet : Sheet} {detail : Dico}
    (habsent : ∀ entry ∈ sheet, Keyed.has detail entry.2.name = false) (all : Bool) :
    sheet.restore detail all = sheet := by
  have hnone : sheet.restored detail all = [] := by
    rw [Sheet.restored, List.map_eq_nil_iff, List.filter_eq_nil_iff]
    intro attr hattr
    obtain ⟨entry, hentry, rfl⟩ := List.mem_map.mp hattr
    simp [habsent entry hentry]
  rw [Sheet.restore, hnone]
  rfl

/-- No attribute has a reserved name. -/
theorem Sheet.Sound.restore_of_reserved {sheet : Sheet} (h : sheet.Sound) {detail : Dico}
    (hkeys : ∀ key ∈ Keyed.keys detail, key ∈ reservedKeys) (all : Bool) :
    sheet.restore detail all = sheet := by
  refine restore_of_absent (fun entry hentry => ?_) all
  have hnew : entry.1 ∉ Keyed.keys detail := fun hmem =>
    (List.nodup_append.mp h.distinct).2.2 _ (hkeys _ hmem) _ (List.mem_map_of_mem hentry) rfl
  rw [h.names entry hentry, Keyed.has, Keyed.get?_eq_none hnew]
  rfl

/-- A box that is built from a text tells so. -/
theorem Studio.made_assemble {catalog : Catalog} {name : String} (hname : name ≠ "")
    {arguments : List Atom} (htokens : ∀ atom ∈ arguments, Words.Token atom)
    (hback : ∀ atom ∈ arguments, atom.readsBack = true) {registration : Registration}
    (hregistration : catalog.get? name = some registration) {id : Nat} {plan : Plan Machine}
    (hplan : registration.model.plan ⟨name, arguments, ["text"], id⟩ = .ok plan) (atoms : List Atom)
    (service : Nat) :
    (assemble ⟨name, arguments, ["text"], id⟩ plan [("text", atoms)] service).Made catalog := by
  refine ⟨registration, ⟨name, arguments, ["text"], id⟩, plan, hregistration, ⟨hname, hplan, rfl,
    htokens, hback, rfl, rfl, fun hbuiltin => ?_⟩⟩
  obtain ⟨hfresh, -⟩ := Model.fresh_sheet hbuiltin hplan
  have hrestored : plan.sheet.restore [("text", atoms)] true = plan.sheet :=
    hfresh.sound.restore_of_reserved (by simp [Keyed.keys, Sheet.reservedKeys]) true
  rw [assemble]
  exact ⟨hrestored.symm ▸ hfresh.sound, congrArg Sheet.outline hrestored⟩

namespace Patch

/-- Every box of the patch was built from text by what its name stands for. -/
def Made (catalog : Catalog) (patch : Patch) : Prop := ∀ box ∈ patch.boxes, box.Made catalog

variable {catalog : Catalog} {patch later : Patch}

/-- This is so if the boxes, apart from their machines, are among those of such a patch. -/
theorem Made.of_bodies (h : patch.Made catalog) (hbodies : later.bodies ⊆ patch.bodies) :
    later.Made catalog := by
  intro box hbox
  obtain ⟨old, hold, hbody⟩ := List.mem_map.mp (hbodies (List.mem_map_of_mem hbox))
  rw [← Box.made_body, ← hbody, Box.made_body]
  exact h old hold

/-- It stays so if such a box is put in. -/
theorem Made.install (h : patch.Made catalog) {box : Box} (hbox : box.Made catalog) :
    (patch.install box).Made catalog := by
  intro other hother
  have hbody : other.body ∈ patch.bodies ++ [box.body] := by
    rw [← bodies_install]
    exact List.mem_map_of_mem hother
  rw [← Box.made_body]
  rcases List.mem_append.mp hbody with hold | hnew
  · obtain ⟨old, hold, heq⟩ := List.mem_map.mp hold
    rw [← heq, Box.made_body]
    exact h old hold
  · rw [List.mem_singleton.mp hnew, Box.made_body]
    exact hbox

/-- Removing a box brings in none. -/
theorem bodies_remove {id : Nat} (h : patch.remove id = .ok later) :
    later.bodies ⊆ patch.bodies := by
  obtain ⟨box, -, rfl⟩ := remove_eq_ok h
  have hbodies : (((patch.without id).rebuildIf box.hasSignals).retire [box]).bodies =
      (patch.without id).bodies := bodies_rebuildIf _ _
  rw [hbodies]
  exact List.map_subset Box.body List.filter_sublist.subset

/-- A change of the attributes of a box leaves the wiring as it is. -/
theorem sameWiring_updateSheet (patch : Patch) (id : Nat) (change : Box → Sheet) :
    patch.SameWiring (patch.updateBox id fun box => { box with sheet := change box }) := by
  refine ⟨?_, rfl, rfl⟩
  rw [updateBox, List.map_map]
  refine List.map_congr_left fun box _ => ?_
  simp only [Function.comp_apply]
  split <;> rfl

/-- It leaves the boxes telling how they were built, if it keeps sheets sound and their outlines. -/
theorem Made.updateSheet (h : patch.Made catalog) {id : Nat} {change : Box → Sheet}
    (hchange : ∀ box ∈ patch.boxes, box.id = id → box.sheet.Sound →
      (change box).Sound ∧ (change box).outline = box.sheet.outline) :
    (patch.updateBox id fun box => { box with sheet := change box }).Made catalog := by
  intro box hbox
  obtain ⟨old, hold, rfl⟩ := List.mem_map.mp hbox
  split
  · next hid => exact (h old hold).withSheet (hchange old hold hid)
  · exact h old hold

end Patch

namespace Studio

/-- The patch of a number is wired well, and its boxes tell how they were built. -/
def Tells (studio : Studio) (number : Nat) : Prop :=
  ∃ patch, studio.patch? number = some patch ∧ patch.Wired ∧ patch.Made studio.catalog

namespace Tells

variable {studio : Studio} {number : Nat}

/-- An edit that brings in no box leaves this as it is. -/
theorem editPatch (h : studio.Tells number) {edit : Patch → Except PatchError Patch}
    (hedit : ∀ patch later, edit patch = .ok later →
      Patch.Change patch later ∧ later.bodies ⊆ patch.bodies) :
    (studio.editPatch number edit).1.Tells number := by
  obtain ⟨patch, hpatch, hwired, hmade⟩ := h
  rw [Tells, catalog_editPatch]
  cases hresult : edit patch with
  | error error => exact ⟨patch, by simp only [Studio.editPatch, hpatch, hresult], hwired, hmade⟩
  | ok later =>
    obtain ⟨hchange, hbodies⟩ := hedit patch later hresult
    exact ⟨later, patch?_editPatch hpatch hresult, hchange.wired hwired, hmade.of_bodies hbodies⟩

/-- So does a change of attributes. -/
theorem adjust (h : studio.Tells number) {change : Patch → Patch}
    (hchange : ∀ patch, patch.Wired → patch.Made studio.catalog →
      (change patch).Wired ∧ (change patch).Made studio.catalog) :
    (studio.adjust number change).Tells number := by
  obtain ⟨patch, hpatch, hwired, hmade⟩ := h
  have hlater : (studio.adjust number change).patch? number = some (change patch) := by
    simp only [Studio.adjust, hpatch]
    exact patch?_setPatch hpatch _
  have hcatalog : (studio.adjust number change).catalog = studio.catalog := by
    simp only [Studio.adjust, hpatch]
    rfl
  rw [Tells, hcatalog]
  exact ⟨change patch, hlater, hchange patch hwired hmade⟩

/-- So does a change of one box's attributes that keeps sheets sound and their outlines. -/
theorem changeSheet (h : studio.Tells number) (id : Nat) {change : Sheet → Sheet}
    (hchange : ∀ sheet : Sheet, sheet.Sound →
      (change sheet).Sound ∧ (change sheet).outline = sheet.outline) :
    (studio.adjust number fun patch => patch.changeSheet id change).Tells number := by
  refine h.adjust fun patch hwired hmade => ?_
  unfold Patch.changeSheet
  split
  · exact ⟨hwired, hmade⟩
  · exact ⟨(patch.sameWiring_updateSheet id _).wired hwired,
      hmade.updateSheet fun box _ _ => hchange box.sheet⟩

/-- So does setting an attribute to atoms that are no NaN. -/
theorem set (h : studio.Tells number) (id : Nat) (name : String) {atoms : List Atom}
    (hatoms : ∀ atom ∈ atoms, atom.toDouble.isNaN = false) :
    (studio.revise number (.set id name atoms)).Tells number := by
  refine h.adjust fun patch hwired hmade => ?_
  unfold Patch.setAttribute
  cases hbox : patch.box? id with
  | none => exact ⟨hwired, hmade⟩
  | some found =>
    dsimp only
    cases hstore : found.sheet.store? name atoms false with
    | none => exact ⟨hwired, hmade⟩
    | some sheet =>
      refine ⟨(patch.sameWiring_updateSheet id _).wired hwired,
        hmade.updateSheet fun box hmem hid hsound => ?_⟩
      obtain rfl := eq_of_find? hwired.nodup hbox hmem hid
      exact hsound.store? hatoms hstore

/-- So does building a box from a text whose doubles are read back from their numerals. -/
theorem create (h : studio.Tells number) {text : String}
    (hback : ∀ atom ∈ Patch.spoken (Words.read text.toList), atom.readsBack = true) :
    (studio.createFromText number text).1.Tells number := by
  obtain ⟨patch, hpatch, hwired, hmade⟩ := h
  rw [Tells, createFromText, catalog_create]
  have hreached : studio.Reaches number patch := ⟨patch, hpatch, .refl⟩
  obtain ⟨later, hlater, hchanges⟩ := hreached.create [("text", Words.read text.toList)]
  refine ⟨later, hlater, (Patch.wired_of_changes hwired hchanges).1, ?_⟩
  rcases create_cases hpatch [("text", Words.read text.toList)] with
    ⟨same, hsame, hboxes, -⟩ |
      ⟨name, arguments, registration, plan, hdescribe, hregistration, hplan⟩
  · obtain rfl := Option.some.inj (hlater.symm.trans hsame)
    rw [Patch.Made, hboxes]
    exact hmade
  obtain ⟨-, service, hbuilt⟩ := create_eq_ok hpatch hdescribe hregistration hplan
  obtain rfl := Option.some.inj (hlater.symm.trans hbuilt)
  obtain ⟨hspoken, hname⟩ := (Patch.describe_eq_ok_iff rfl).mp hdescribe
  have hget : Dico.get [("text", Words.read text.toList)] "text" = Words.read text.toList := rfl
  rw [hget] at hspoken
  have hspokenTokens : ∀ atom ∈ Patch.spoken (Words.read text.toList), Words.Token atom := by
    intro atom hatom
    unfold Patch.spoken at hatom
    split at hatom <;> exact Words.token_of_mem_read hatom
  have htokens : ∀ atom ∈ arguments, Words.Token atom := fun atom hatom =>
    hspokenTokens atom (hspoken ▸ List.mem_cons_of_mem _ hatom)
  have harguments : ∀ atom ∈ arguments, atom.readsBack = true := fun atom hatom =>
    hback atom (hspoken ▸ List.mem_cons_of_mem _ hatom)
  have hreserved : patch.reserve.1.Made studio.catalog := hmade
  exact hreserved.install
    (made_assemble hname htokens harguments hregistration hplan _ service)

/-- Every revision leaves the patch wired well and its boxes telling how they were built. -/
theorem revise (h : studio.Tells number) {revision : Revision}
    (hreadable : revision.isReadable = true) : (studio.revise number revision).Tells number := by
  cases revision with
  | create text => exact h.create (List.all_eq_true.mp hreadable)
  | remove id =>
    exact h.editPatch fun _ _ hremove => ⟨.remove id hremove, Patch.bodies_remove hremove⟩
  | clear =>
    refine h.editPatch fun patch later hclear => ?_
    obtain rfl := Except.ok.inj hclear
    refine ⟨.clear patch, ?_⟩
    have hbodies : patch.clear.bodies = [] := Patch.bodies_rebuildIf _ true
    rw [hbodies]
    exact List.nil_subset _
  | connect source outlet target inlet =>
    refine h.editPatch fun patch later hconnect => ⟨.connect _ _ _ _ hconnect, ?_⟩
    obtain ⟨signal, -, rfl⟩ := Patch.connect_eq_ok hconnect
    rw [Patch.bodies_rebuildIf]
    exact List.Subset.refl _
  | disconnect source outlet target inlet =>
    refine h.editPatch fun patch later hdisconnect => ⟨.disconnect _ _ _ _ hdisconnect, ?_⟩
    obtain ⟨wire, -, rfl⟩ := Patch.disconnect_eq_ok hdisconnect
    rw [Patch.bodies_rebuildIf]
    exact List.Subset.refl _
  | set id name atoms =>
    refine h.set id name fun atom hatom => ?_
    simpa using List.all_eq_true.mp hreadable atom hatom
  | reset id name =>
    refine h.changeSheet id fun sheet hsound => ?_
    cases hreset : sheet.reset? name with
    | none => exact ⟨hsound, rfl⟩
    | some later => exact hsound.reset? hreset
  | freeze id name on => exact h.changeSheet id fun sheet hsound => hsound.freeze name on

end Tells

/-- Revising leaves the catalog as it is. -/
theorem catalog_revise (studio : Studio) (number : Nat) (revision : Revision) :
    (studio.revise number revision).catalog = studio.catalog := by
  have hadjust : ∀ change, (studio.adjust number change).catalog = studio.catalog := by
    intro change
    unfold adjust
    split <;> rfl
  cases revision with
  | create text => exact catalog_create studio number _
  | remove | clear | connect | disconnect => exact catalog_editPatch studio number _
  | set | reset | freeze => exact hadjust _

/-- After any number of revisions the patch is wired well and its boxes tell how they were built. -/
theorem Tells.reviseAll {studio : Studio} {number : Nat} (h : studio.Tells number)
    {revisions : List Revision} (hreadable : ∀ revision ∈ revisions, revision.isReadable = true) :
    (studio.reviseAll number revisions).Tells number ∧
      (studio.reviseAll number revisions).catalog = studio.catalog := by
  induction revisions generalizing studio with
  | nil => exact ⟨h, rfl⟩
  | cons revision revisions ih =>
    have hrevised := h.revise (hreadable revision List.mem_cons_self)
    obtain ⟨htells, hcatalog⟩ :=
      ih hrevised fun other hmem => hreadable other (List.mem_cons_of_mem revision hmem)
    exact ⟨htells, hcatalog.trans (catalog_revise studio number revision)⟩

end Studio

end Patchbay
