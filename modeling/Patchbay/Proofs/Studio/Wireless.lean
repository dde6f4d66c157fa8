import Patchbay.Proofs.Studio.Turns

/-!
# Messages on the air

A message that a speaker takes in is put out by the hearers that were built under the same name and are
still in their patches, whatever patches these are, each once and in the order in which they were built.
All that comes of one of them putting it out is over before the next one does.

Only boxes that edit their patch can take a hearer out on the way, and then it is its turn that counts.
The boxes that every studio knows never do.
-/

namespace Patchbay

/-- Decide whether a box was built under one of some names, with the name of a beacon behind it. -/
def Birth.isNamed (names : List String) (beacon : String) (birth : Birth) : Bool :=
  names.contains birth.site.name && (birth.site.argument 0).isWord beacon

theorem Atom.isWord_iff {word : String} {atom : Atom} : atom.isWord word = true ↔ atom = .symbol word := by
  cases atom <;> simp [isWord]

namespace Model

variable {model : Model} {site : Site} {plan : Plan Machine}

/-- A beacon has the name that the first argument gives. -/
theorem beaconName_eq_ok {name : String} (h : Wireless.beaconName site = .ok name) :
    site.argument 0 = .symbol name := by
  unfold Wireless.beaconName at h
  split at h
  · next text htext =>
    split at h
    · cases h
    · rw [htext, Except.ok.inj h]
  · cases h

/-- A speaker holds the beacon that its first argument names. -/
theorem plan_speaker (h : Model.speaker.plan site = .ok plan) : ∃ name,
    site.argument 0 = .symbol name ∧ plan.service = .speak name ∧
      ∀ beacon, (plan.state beacon).station = .speaker beacon := by
  obtain ⟨wireless, hwireless, rfl⟩ := exists_of_map_eq_ok h
  obtain ⟨name, hname, rfl⟩ := exists_of_map_eq_ok hwireless
  exact ⟨name, beaconName_eq_ok hname, rfl, fun _ => rfl⟩

/-- A hearer is bound to the beacon that its first argument names. -/
theorem plan_hearer (h : Model.hearer.plan site = .ok plan) : ∃ name,
    site.argument 0 = .symbol name ∧ plan.service = .listen name := by
  obtain ⟨wireless, hwireless, rfl⟩ := exists_of_map_eq_ok h
  obtain ⟨name, hname, rfl⟩ := exists_of_map_eq_ok hwireless
  exact ⟨name, beaconName_eq_ok hname, rfl⟩

/-- Nothing but a hearer is bound to a beacon. -/
theorem eq_hearer_of_listen (h : model.plan site = .ok plan) {name : String}
    (hlisten : plan.service = .listen name) : model = .hearer := by
  cases model with
  | hearer => rfl
  | speaker =>
    obtain ⟨other, -, hspeak, -⟩ := plan_speaker h
    rw [hspeak] at hlisten
    cases hlisten
  | input | output =>
    obtain ⟨audio, haudio, rfl⟩ := exists_of_map_eq_ok h
    obtain ⟨channels, -, rfl⟩ := exists_of_map_eq_ok haudio
    cases hlisten
  | _ =>
    obtain rfl := Except.ok.inj h
    cases hlisten

/-- What every studio knows is no bench box. -/
theorem station_ne_bench (h : model.plan site = .ok plan) (hbuiltin : model.isBuiltin = true)
    (number : Nat) : (plan.state number).station ≠ .bench := by
  cases model with
  | speaker =>
    obtain ⟨name, -, -, hstation⟩ := plan_speaker h
    rw [hstation]
    nofun
  | hearer =>
    obtain ⟨wireless, hwireless, rfl⟩ := exists_of_map_eq_ok h
    obtain ⟨name, -, rfl⟩ := exists_of_map_eq_ok hwireless
    nofun
  | input | output =>
    obtain ⟨audio, haudio, rfl⟩ := exists_of_map_eq_ok h
    obtain ⟨channels, -, rfl⟩ := exists_of_map_eq_ok haudio
    nofun
  | idle | twin | late | agent | panel => cases hbuiltin
  | _ =>
    obtain rfl := Except.ok.inj h
    nofun

end Model

namespace Catalog

/-- The names in a catalog under which speakers are built, and those for hearers. -/
structure Speaks (catalog : Catalog) : Prop where
  speaker : ∀ name, (catalog.get? name).map Registration.model = some .speaker ↔ name ∈ ["send", "s"]
  hearer : ∀ name, (catalog.get? name).map Registration.model = some .hearer ↔
    name ∈ ["receive", "r"]

/-- A model is found under the names of its entries only. -/
theorem model_eq_iff {catalog : Catalog} {model : Model} {names : List String}
    (hall : ∀ entry ∈ catalog, entry.2.model = model → entry.1 ∈ names)
    (hnames : ∀ name ∈ names, (catalog.get? name).map Registration.model = some model) (name : String) :
    (catalog.get? name).map Registration.model = some model ↔ name ∈ names := by
  refine ⟨fun h => ?_, hnames name⟩
  obtain ⟨registration, hregistration, hmodel⟩ := Option.map_eq_some_iff.mp h
  exact hall _ (Keyed.mem_of_get? hregistration) hmodel

theorem speaks_standard : Speaks standard :=
  ⟨model_eq_iff (by decide +kernel) (by decide +kernel),
    model_eq_iff (by decide +kernel) (by decide +kernel)⟩

theorem speaks_withBench : Speaks withBench :=
  ⟨model_eq_iff (by decide +kernel) (by decide +kernel),
    model_eq_iff (by decide +kernel) (by decide +kernel)⟩

/-- Every model of the standard catalog is one that every studio knows. -/
theorem isBuiltin_standard : ∀ entry ∈ standard, entry.2.model.isBuiltin = true := by decide +kernel

end Catalog

namespace Birth

variable {catalog : Catalog} {birth : Birth} {plan : Plan Machine}

/-- The boxes bound to the beacon of a name are those built as hearers of that name. -/
theorem hears_eq_isNamed (hspeaks : catalog.Speaks) (hplan : birth.plan? catalog = some plan)
    (name : String) : birth.hears catalog name = birth.isNamed ["receive", "r"] name := by
  obtain ⟨registration, hregistration, hbuilt⟩ := plan?_eq_some hplan
  have hmodel : registration.model = .hearer ↔ birth.site.name ∈ ["receive", "r"] := by
    rw [← hspeaks.hearer, hregistration, Option.map_some, Option.some.injEq]
  rw [Birth.hears, hplan, Option.any_some, Bool.eq_iff_iff, Birth.isNamed, Bool.and_eq_true,
    List.contains_iff_mem, beq_iff_eq, ← hmodel, Atom.isWord_iff]
  constructor
  · intro hlisten
    have hhearer := Model.eq_hearer_of_listen hbuilt hlisten
    rw [hhearer] at hbuilt
    obtain ⟨other, hargument, hother⟩ := Model.plan_hearer hbuilt
    rw [hlisten, Service.listen.injEq] at hother
    exact ⟨hhearer, hother ▸ hargument⟩
  · rintro ⟨hhearer, hword⟩
    rw [hhearer] at hbuilt
    obtain ⟨other, hargument, hother⟩ := Model.plan_hearer hbuilt
    rw [hword, Atom.symbol.injEq] at hargument
    rw [hother, hargument]

/-- A box built as a speaker of a name stays one, and holds the beacon of that name. -/
theorem Stands.speaker {registry : Registry Castaway} {box : Box}
    (h : birth.Stands catalog registry box.post) (hspeaks : catalog.Speaks) {name : String}
    (hnamed : birth.isNamed ["send", "s"] name = true) :
    ∃ beacon, box.machine = .wireless (.speaker beacon) ∧ registry.find? name = some beacon := by
  obtain ⟨plan, number, hplan, hpost, hspeak⟩ := h
  obtain ⟨registration, hregistration, hbuilt⟩ := plan?_eq_some hplan
  obtain ⟨hmem, hword⟩ := Bool.and_eq_true_iff.mp hnamed
  have hmodel : registration.model = .speaker := by
    have hfound := (hspeaks.speaker birth.site.name).mpr (List.contains_iff_mem.mp hmem)
    rwa [hregistration, Option.map_some, Option.some.injEq] at hfound
  rw [hmodel] at hbuilt
  obtain ⟨other, hargument, hservice, hstation⟩ := Model.plan_speaker hbuilt
  rw [Atom.isWord_iff.mp hword, Atom.symbol.injEq] at hargument
  obtain ⟨-, -, hmachine⟩ := Post.mk.inj hpost
  rw [hstation] at hmachine
  refine ⟨number, ?_, hspeak name (hargument ▸ hservice)⟩
  cases hbox : box.machine with
  | wireless wireless =>
    cases wireless with
    | speaker beacon =>
      rw [hbox, Machine.station, Station.speaker.injEq] at hmachine
      rw [hmachine]
    | hearer =>
      rw [hbox] at hmachine
      cases hmachine
  | control | timing | audio | bench =>
    rw [hbox] at hmachine
    cases hmachine

end Birth

namespace Studio

variable {studio later after last : Studio} {most depth number : Nat} {patch : Patch}

/-- Boxes that react without changing leave the patch as it is. -/
theorem updateBox_eq_self (htagged : patch.Tagged) {id : Nat} {box : Box}
    (hbox : patch.boxOrRetired? id = some box) {change : Box → Box} (hchange : change box = box) :
    patch.updateBox id change = patch := by
  rw [Patch.boxOrRetired?_eq_find?] at hbox
  have hsame : ∀ other ∈ patch.everyone, (if other.id = id then change other else other) = other := by
    intro other hother
    split
    · next hid => rw [eq_of_find? htagged.nodup hbox hother hid, hchange]
    · rfl
  have hboxes : ∀ boxes, boxes ⊆ patch.everyone →
      (boxes.map fun other => if other.id = id then change other else other) = boxes := by
    intro boxes hsub
    conv_rhs => rw [← List.map_id boxes]
    exact List.map_congr_left fun other hother => hsame other (hsub hother)
  rw [Patch.updateBox, hboxes _ (List.subset_append_left _ _), hboxes _ (List.subset_append_right _ _)]

/-- A patch may be put in its own place. -/
theorem setPatch_eq_self (hnodup : studio.numbers.Nodup) (hpatch : studio.patch? number = some patch) :
    studio.setPatch number patch = studio := by
  obtain ⟨found, hfound, rfl⟩ := Option.map_eq_some_iff.mp hpatch
  have hnumber : found.1 = number := by simpa using List.find?_some hfound
  have hpatches : (studio.patches.map fun entry =>
      if entry.1 = number then (number, found.2) else entry) = studio.patches := by
    conv_rhs => rw [← List.map_id studio.patches]
    refine List.map_congr_left fun entry hentry => ?_
    split
    · next heq =>
      have hsame : entry = found := List.inj_on_of_nodup_map hnodup hentry
        (List.mem_of_find?_eq_some hfound) (heq.trans hnumber.symm)
      rw [hsame, ← hnumber]
      rfl
    · rfl
  rw [setPatch, hpatches]

/-- A box that reacts without changing leaves the studio as it is. -/
theorem settleReaction_eq_self (hnodup : studio.numbers.Nodup) {handle : Handle}
    (hpatch : studio.patch? handle.patch = some patch) (htagged : patch.Tagged) {box : Box}
    (hbox : patch.boxOrRetired? handle.box = some box) {reaction : Reaction Machine}
    (hstate : reaction.state = box.machine) (hsheet : reaction.sheet = box.sheet) :
    studio.settleReaction handle reaction = studio := by
  simp only [settleReaction, hpatch]
  rw [updateBox_eq_self htagged hbox (by rw [hstate, hsheet]), setPatch_eq_self hnodup hpatch]

/-- Boxes put out a message, one after the other, each with all that comes of it; who is gone when it is
its turn is left out. -/
inductive PutsOut (most depth : Nat) (atoms : List Atom) :
    List Handle → List Handle → Studio → Studio → Prop where
  | done {studio : Studio} : PutsOut most depth atoms [] [] studio studio
  | out {handle : Handle} {handles outs : List Handle} {studio between last : Studio}
    {events : List Event} (halive : studio.isAlive handle = true)
    (hsent : Runs most depth (.sendOut handle 0 atoms) studio between true)
    (hevents : between.events = events ++ .sent handle 0 atoms :: studio.events)
    (hrest : PutsOut most depth atoms handles outs between last) :
    PutsOut most depth atoms (handle :: handles) (handle :: outs) studio last
  | gone {handle : Handle} {handles outs : List Handle} {studio last : Studio}
    (hgone : studio.isAlive handle = false)
    (hrest : PutsOut most depth atoms handles outs studio last) :
    PutsOut most depth atoms (handle :: handles) outs studio last

/-- What runs adds to the events. -/
theorem Runs.events {call : Call} {outcome : Bool} (h : Runs most depth call studio after outcome)
    (hnesting : studio.nesting = depth) : ∃ events, after.events = events ++ studio.events := by
  obtain ⟨events, hevents, -⟩ := (h.kept hnesting).noted
  exact ⟨events, hevents⟩

/-- Castaways that are boxes put the message out in their order. -/
theorem Runs.putsOut {atoms : List Atom} {handles : List Handle}
    (h : Runs most depth (.reach atoms (handles.map Castaway.box)) studio after true)
    (hnesting : studio.nesting = depth) :
    ∃ outs, outs.Sublist handles ∧ PutsOut most depth atoms handles outs studio after := by
  induction handles generalizing studio with
  | nil =>
    cases h
    exact ⟨[], .slnil, .done⟩
  | cons handle handles ih =>
    cases h with
    | @reached _ _ _ _ _ between _ hfirst hrest =>
      obtain ⟨outs, hsub, hputs⟩ := ih hrest ((hfirst.kept hnesting).nesting.trans hnesting)
      cases hfirst with
      | absent hgone => exact ⟨outs, hsub.cons handle, .gone hgone hputs⟩
      | present halive hsend =>
        have hsent := hsend
        cases hsend with
        | nowhere hnone =>
          obtain ⟨patch, hpatch, -⟩ := isAlive_iff.mp halive
          rw [hnone] at hpatch
          cases hpatch
        | sent hpatch htargets =>
          obtain ⟨events, hevents⟩ := htargets.events hnesting
          exact ⟨handle :: outs, hsub.cons_cons handle, .out halive hsent hevents hputs⟩

/-- No box in a patch or taken out of it can edit the patch. -/
def Peaceful (studio : Studio) : Prop :=
  ∀ number patch id post, studio.patch? number = some patch → patch.post? id = some post →
    post.station ≠ .bench

theorem Peaceful.of_sameBoxes (h : studio.Peaceful) (hsame : studio.SameBoxes later) :
    later.Peaceful := by
  intro number other id post hother hpost
  obtain ⟨patch, hpatch, halike⟩ := hsame.earlier hother
  exact h number patch id post hpatch (halike.post? id ▸ hpost)

/-- Decide whether an effect is an edit of the patch. -/
def isEdit : Effect → Bool
  | .edit _ => true
  | _ => false

/-- A call that is no edit. -/
def Call.Peaceful : Call → Prop
  | .effect _ wanted => isEdit wanted = false
  | .carryOut _ effects => ∀ wanted ∈ effects, isEdit wanted = false
  | _ => True

/-- Only bench boxes ask for edits. -/
theorem isEdit_receive {machine : Machine} (hstation : machine.station ≠ .bench) (here : Surroundings)
    (inlet : Nat) (atoms : List Atom) :
    ∀ effect ∈ (machine.receive here inlet atoms).effects, isEdit effect = false := by
  cases machine with
  | bench => exact absurd rfl hstation
  | control state =>
    simp only [Machine.receive, Reaction.map, Control.receive]
    split
    · simp [isEdit]
    · simp [isEdit]
    · simp [Reaction.ignore]
    · repeat' split
      all_goals simp [isEdit, Reaction.ignore]
  | wireless state =>
    cases state <;> simp [Machine.receive, Reaction.map, Wireless.receive, isEdit, Reaction.ignore]
  | timing state =>
    simp only [Machine.receive, Reaction.map, Timing.receive]
    repeat' split
    all_goals simp [isEdit, Reaction.ignore, Timing.startDelay, Timing.startMetro]
  | audio state =>
    simp only [Machine.receive, Reaction.map, Audio.receive]
    repeat' split
    all_goals simp [Reaction.ignore]

/-- As long as no box can edit a patch, messages leave the same boxes in the same patches. -/
theorem Runs.sameBoxes {call : Call} {outcome : Bool} (h : Runs most depth call studio after outcome)
    (hpeaceful : studio.Peaceful) (hcall : call.Peaceful) : studio.SameBoxes after := by
  induction h with
  | dropped | noTarget | nowhere | absent | reachedAll | noEffect => exact .of_patches rfl
  | @taken depth handle inlet atoms studio after box reaction outcome hroom hbox hreaction heffects ih =>
    subst hreaction
    have hsame := (Alike.receive hbox inlet atoms).toSameBoxes
    have hstation : box.machine.station ≠ .bench := by
      obtain ⟨patch, hpatch, hfound⟩ := exists_of_taker? hbox
      exact hpeaceful handle.patch patch handle.box box.post hpatch (congrArg (Option.map Box.post) hfound)
    have hrun := ih (hpeaceful.of_sameBoxes hsame) (isEdit_receive hstation _ _ _)
    exact (hsame.trans hrun).trans (.of_patches rfl)
  | @sent depth handle outlet atoms studio after patch hpatch htargets ih =>
    have hnoted := (Alike.note studio (.sent handle outlet atoms)).toSameBoxes
    exact hnoted.trans (ih (hpeaceful.of_sameBoxes hnoted) trivial)
  | heard hheard => exact (Alike.hearing hheard).toSameBoxes
  | replied hheard hreply ih =>
    have hheardSame := (Alike.hearing hheard).toSameBoxes
    exact hheardSame.trans (ih (hpeaceful.of_sameBoxes hheardSame) trivial)
  | @atOnce depth handle effect studio after outcome hdone =>
    cases effect with
    | send | broadcast => cases hdone
    | edit => cases hcall
    | print line =>
      obtain ⟨rfl, -⟩ := Prod.mk.inj (Option.some.inj hdone)
      exact (Alike.print _ line).toSameBoxes
    | tickAfter clock wait =>
      obtain rfl : (studio.tickAfter handle clock wait).1 = after :=
        congrArg Prod.fst (Option.some.inj hdone)
      unfold tickAfter
      split <;> exact .of_patches rfl
  | present halive hrun ih | send hrun ih | broadcast hrun ih => exact ih hpeaceful trivial
  | target hfirst hrest ihFirst ihRest | reached hfirst hrest ihFirst ihRest =>
    have hbetween := ihFirst hpeaceful trivial
    exact hbetween.trans (ihRest (hpeaceful.of_sameBoxes hbetween) trivial)
  | effect hfirst hrest ihFirst ihRest =>
    obtain ⟨hone, hothers⟩ := List.forall_mem_cons.mp hcall
    have hbetween := ihFirst hpeaceful hone
    exact hbetween.trans (ihRest (hpeaceful.of_sameBoxes hbetween) hothers)

/-- As long as no box can edit a patch, whoever is there puts the message out. -/
theorem PutsOut.eq_of_alive {atoms : List Atom} {handles outs : List Handle}
    (h : PutsOut most depth atoms handles outs studio last) (hpeaceful : studio.Peaceful)
    (halive : ∀ handle ∈ handles, studio.isAlive handle = true) : outs = handles := by
  induction h with
  | done => rfl
  | out _ hsent _ _ ih =>
    have hbetween := hsent.sameBoxes hpeaceful trivial
    have hrest := ih (hpeaceful.of_sameBoxes hbetween) fun other hother => by
      rw [hbetween.isAlive]
      exact halive other (List.mem_cons_of_mem _ hother)
    rw [hrest]
  | gone hgone => simp [halive _ List.mem_cons_self] at hgone

end Studio

namespace Roster

open Studio

variable {roster : Roster} {birth : Birth}

/-- The boxes present that were built under one of some names, with the name of a beacon behind it, in
the order in which they were built. -/
def called (roster : Roster) (names : List String) (beacon : String) : List Handle :=
  (roster.present.filter (Birth.isNamed names beacon)).map Birth.handle

/-- Every box that is present was built from a plan. -/
theorem Sound.exists_plan (h : roster.Sound) (hpresent : birth ∈ roster.present) :
    ∃ plan, birth.plan? roster.studio.catalog = some plan := by
  have hbirth := h.present.subset hpresent
  obtain ⟨patch, hpatch, -⟩ := Studio.isAlive_iff.mp ((h.isAlive_iff hbirth).mpr hpresent)
  obtain ⟨_, -, plan, _, hplan, -⟩ := h.housed.stands birth hbirth patch hpatch
  exact ⟨plan, hplan⟩

/-- The boxes bound to the beacon of a name are those that were built to receive it. -/
theorem Sound.receivers_eq (h : roster.Sound) (hspeaks : roster.studio.catalog.Speaks) (name : String) :
    receivers roster.studio.catalog name roster.present = roster.called ["receive", "r"] name := by
  unfold receivers called
  congr 1
  refine List.filter_congr fun birth hpresent => ?_
  obtain ⟨plan, hplan⟩ := h.exists_plan hpresent
  exact Birth.hears_eq_isNamed hspeaks hplan name

/-- With the boxes that every studio knows no box can edit a patch. -/
theorem Sound.peaceful (h : roster.Sound) (hcatalog : roster.studio.catalog = Catalog.standard) :
    roster.studio.Peaceful := by
  intro number patch id post hpatch hpost
  obtain ⟨birth, hbirth, hhandle⟩ := h.housed.born number patch id post hpatch hpost
  obtain ⟨rfl, rfl⟩ := Handle.mk.inj hhandle
  obtain ⟨found, hfound, plan, service, hplan, rfl, -⟩ := h.housed.stands birth hbirth patch hpatch
  rw [hpost, Option.some.injEq] at hfound
  obtain ⟨registration, hregistration, hbuilt⟩ := Birth.plan?_eq_some hplan
  rw [hcatalog] at hregistration
  rw [hfound]
  exact Model.station_ne_bench hbuilt (Catalog.isBuiltin_standard _ (Keyed.mem_of_get? hregistration)) _

/-- A message that a speaker takes in is put out by the hearers of its beacon. -/
theorem Sound.deliver_speaker (h : roster.Sound) (hspeaks : roster.studio.catalog.Speaks)
    (hbirth : birth ∈ roster.births) {name : String} (hnamed : birth.isNamed ["send", "s"] name = true)
    {box : Box} (htaker : roster.studio.taker? birth.handle = some box) {inlet : Nat} {atoms : List Atom}
    {most depth : Nat} (hnesting : roster.studio.nesting = depth) {after : Studio} {outcome : Bool}
    (hrun : Runs most depth (.deliver birth.handle inlet atoms) roster.studio after outcome) :
    ∃ outs last, outs.Sublist (roster.called ["receive", "r"] name) ∧
      PutsOut most (depth + 1) atoms (roster.called ["receive", "r"] name) outs
        (roster.studio.entered birth.handle inlet atoms) last ∧
      after = last.left ∧ outcome = true := by
  obtain ⟨patch, hpatch, hfound⟩ := exists_of_taker? htaker
  obtain ⟨post, hpost, hstands⟩ := h.housed.stands birth hbirth patch hpatch
  have hsame : patch.post? birth.site.id = some box.post := congrArg (Option.map Box.post) hfound
  rw [hpost, Option.some.injEq] at hsame
  subst hsame
  obtain ⟨beacon, hmachine, hbeacon⟩ := hstands.speaker hspeaks hnamed
  cases hrun with
  | dropped hnone =>
    rw [htaker] at hnone
    cases hnone
  | @taken _ _ _ _ _ after other reaction ran hroom htaken hreaction heffects =>
    obtain rfl := Option.some.inj (htaker.symm.trans htaken)
    have hentered : (roster.studio.entered birth.handle inlet atoms).settleReaction birth.handle reaction =
        roster.studio.entered birth.handle inlet atoms := by
      have hpatchEntered : (roster.studio.entered birth.handle inlet atoms).patch? birth.handle.patch =
          some patch := hpatch
      have hnodup : (roster.studio.entered birth.handle inlet atoms).numbers.Nodup := h.housed.nodup
      refine settleReaction_eq_self hnodup hpatchEntered (h.housed.tagged _ patch hpatch) hfound ?_ ?_
      · rw [← hreaction, hmachine]
        rfl
      · rw [← hreaction, hmachine]
        rfl
    rw [hentered] at heffects
    obtain rfl : reaction = ⟨box.machine, box.sheet, [.broadcast beacon atoms], .known true⟩ := by
      rw [← hreaction, hmachine]
      rfl
    cases heffects with
    | effect hfirst hrest =>
      cases hrest
      cases hfirst with
      | atOnce hdone => cases hdone
      | broadcast hreach =>
        have hcastaways : (roster.studio.entered birth.handle inlet atoms).registry.castaways beacon =
            (roster.called ["receive", "r"] name).map Castaway.box :=
          (h.bound name beacon hbeacon).trans (congrArg _ (h.receivers_eq hspeaks name))
        rw [hcastaways] at hreach
        obtain ⟨outs, hsub, hputs⟩ := hreach.putsOut (congrArg (· + 1) hnesting)
        exact ⟨outs, _, hsub, hputs, rfl, rfl⟩

/-- Whatever boxes are built, removed and cleared away in whatever patches, whatever saved patches are
read and patches dropped: a message that a speaker takes in is put out by each hearer of its name that is
in a patch, once and in the order of building, and by nobody else, and all that comes of it is over
when the delivery is. A hearer that a box takes out of its patch before its turn does not put it out;
with the boxes that every studio knows there is none. -/
theorem messages_reach_every_receiver {catalog : Catalog}
    (hcatalog : catalog = Catalog.standard ∨ catalog = Catalog.withBench) {roster : Roster}
    (hreached : Reached catalog roster) {birth : Birth} (hbirth : birth ∈ roster.births) {name : String}
    (hnamed : birth.isNamed ["send", "s"] name = true)
    (htaker : (roster.studio.taker? birth.handle).isSome = true) (inlet : Nat) (atoms : List Atom) :
    roster.present.Sublist roster.births ∧ (roster.called ["receive", "r"] name).Nodup ∧
      (∀ handle, handle ∈ roster.called ["receive", "r"] name ↔
        roster.studio.isAlive handle = true ∧ ∃ other ∈ roster.births,
          other.isNamed ["receive", "r"] name = true ∧ other.handle = handle) ∧
      Runs roster.studio.highest roster.studio.nesting (.deliver birth.handle inlet atoms) roster.studio
        (deliver roster.studio.levels birth.handle inlet atoms roster.studio).1
        (deliver roster.studio.levels birth.handle inlet atoms roster.studio).2 ∧
      ∀ most after outcome,
        Runs most roster.studio.nesting (.deliver birth.handle inlet atoms) roster.studio after outcome →
          ∃ outs last, outs.Sublist (roster.called ["receive", "r"] name) ∧
            (catalog = Catalog.standard → outs = roster.called ["receive", "r"] name) ∧
            PutsOut most (roster.studio.nesting + 1) atoms (roster.called ["receive", "r"] name) outs
              (roster.studio.entered birth.handle inlet atoms) last ∧
            after = last.left ∧ outcome = true := by
  have hsound := hreached.sound
  have hspeaks : roster.studio.catalog.Speaks := by
    rw [hreached.catalog]
    rcases hcatalog with rfl | rfl
    · exact Catalog.speaks_standard
    · exact Catalog.speaks_withBench
  obtain ⟨box, hbox⟩ := Option.isSome_iff_exists.mp htaker
  have halive : ∀ handle, handle ∈ roster.called ["receive", "r"] name ↔
      roster.studio.isAlive handle = true ∧ ∃ other ∈ roster.births,
        other.isNamed ["receive", "r"] name = true ∧ other.handle = handle := by
    intro handle
    simp only [called, List.mem_map, List.mem_filter]
    constructor
    · rintro ⟨other, ⟨hpresent, hother⟩, rfl⟩
      have hborn := hsound.present.subset hpresent
      exact ⟨(hsound.isAlive_iff hborn).mpr hpresent, other, hborn, hother, rfl⟩
    · rintro ⟨hhandle, other, hborn, hother, rfl⟩
      exact ⟨other, ⟨(hsound.isAlive_iff hborn).mp hhandle, hother⟩, rfl⟩
  refine ⟨hsound.present, ?_, halive, (Call.deliver birth.handle inlet atoms).ends (Request.ready rfl), ?_⟩
  · exact hsound.housed.handles.sublist ((List.filter_sublist.trans hsound.present).map _)
  · intro most after outcome hrun
    obtain ⟨outs, last, hsub, hputs, hafter, houtcome⟩ :=
      hsound.deliver_speaker hspeaks hbirth hnamed hbox rfl hrun
    refine ⟨outs, last, hsub, fun hstandard => ?_, hputs, hafter, houtcome⟩
    have hpeaceful := hsound.peaceful (hreached.catalog.trans hstandard)
    have hentered : roster.studio.SameBoxes (roster.studio.entered birth.handle inlet atoms) :=
      .of_patches rfl
    refine hputs.eq_of_alive (hpeaceful.of_sameBoxes hentered) fun handle hhandle => ?_
    rw [hentered.isAlive]
    exact ((halive handle).mp hhandle).1

/-- The description of a box with a name for its argument. -/
def wirelessDetail (name beacon : String) : Dico :=
  [("name", [.symbol name]), ("arguments", [.symbol beacon])]

/-- Two patches. The first has a speaker, and had a hearer of its name that was removed; the second has
one hearer of that name and one of another. -/
def house : Roster :=
  let birth (patch id : Nat) (name beacon : String) : Birth :=
    ⟨patch, name, [.symbol beacon], ["name", "arguments"], id⟩
  let patches : Studio := ({} : Studio).addPatch.1.addPatch.1
  let speaker := (patches.create 0 (wirelessDetail "send" "x")).1
  let near := (speaker.create 0 (wirelessDetail "receive" "x")).1
  let far := (near.create 1 (wirelessDetail "r" "x")).1
  let other := (far.create 1 (wirelessDetail "r" "y")).1
  { studio := (other.editPatch 0 fun patch => patch.remove 1).1
    births := [birth 0 0 "send" "x", birth 0 1 "receive" "x", birth 1 0 "r" "x", birth 1 1 "r" "y"]
    present := [birth 0 0 "send" "x", birth 1 0 "r" "x", birth 1 1 "r" "y"] }

/-- They can be reached. -/
theorem reached_house : Reached Catalog.standard house := by
  have hfirst : Leads { studio := {} } { studio := ({} : Studio).addPatch.1 } := .single (.addPatch _)
  have hpatches := hfirst.tail (.addPatch _)
  have hspeaker := hpatches.tail (.create _ 0 (wirelessDetail "send" "x") rfl rfl)
  have hnear := hspeaker.tail (.create _ 0 (wirelessDetail "receive" "x") rfl rfl)
  have hfar := hnear.tail (.create _ 1 (wirelessDetail "r" "x") rfl rfl)
  have hother := hfar.tail (.create _ 1 (wirelessDetail "r" "y") rfl rfl)
  exact hother.tail (.remove _ 0 1)

/-- A message to the speaker is put out by the hearer in the other patch, and by nobody else. -/
theorem messages_reach_every_receiver_house :
    ∃ last, house.called ["receive", "r"] "x" = [⟨1, 0⟩] ∧
      Studio.PutsOut house.studio.highest 1 [bang] [⟨1, 0⟩] [⟨1, 0⟩]
        (house.studio.entered ⟨0, 0⟩ 0 [bang]) last ∧
      Studio.deliver house.studio.levels ⟨0, 0⟩ 0 [bang] house.studio = (last.left, true) := by
  have hcalled : house.called ["receive", "r"] "x" = [⟨1, 0⟩] := by decide +kernel
  have htaker : (house.studio.taker? ⟨0, 0⟩).isSome = true := by decide +kernel
  obtain ⟨-, -, -, hruns, hall⟩ := messages_reach_every_receiver (Or.inl rfl) reached_house
    (List.mem_cons_self : (⟨0, "send", [.symbol "x"], ["name", "arguments"], 0⟩ : Birth) ∈ house.births)
    (by decide +kernel : Birth.isNamed ["send", "s"] "x" _ = true) htaker 0 [bang]
  obtain ⟨outs, last, -, houts, hputs, hafter, houtcome⟩ := hall _ _ _ hruns
  rw [houts rfl, hcalled] at hputs
  exact ⟨last, hcalled, hputs, Prod.ext hafter houtcome⟩

end Roster

end Patchbay
