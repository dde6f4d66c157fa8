import Patchbay.Proofs.Studio.Lives

/-!
# What a studio does to a timing box

Whatever turns are taken in a studio, what happens to a timing box on the way is what can happen to its
clockwork, one thing after the other: a message is taken in with all that the box asks for on it, a tick
is taken, or a tick is asked for from outside. Messages that come back to the box while it is still
putting out its own find the reaction done but for that.
-/

namespace Patchbay

open Studio

namespace Birth

/-- The box is built as a timing box, with the clock of the studio. -/
def IsTimed (catalog : Catalog) (birth : Birth) : Prop :=
  ∃ plan, birth.plan? catalog = some plan ∧ plan.service = .clock ∧
    ∀ clock, ∃ timing, plan.state clock = .timing timing ∧ timing.generation = clock

/-- A clockwork just built: the state is the one that is planned, and the attributes are those that are
planned with what a description says of them. -/
def Begins (catalog : Catalog) (birth : Birth) (clockwork : Clockwork) : Prop :=
  ∃ plan clock detail, birth.plan? catalog = some plan ∧
    plan.state clock = .timing clockwork.timing ∧
    clockwork.sheet = (plan.attributes.foldl Sheet.add Box.commonSheet).restore detail true

end Birth

namespace Studio

variable {allowed : Sheet → Nat → Nat → Prop} {catalog : Catalog} {birth : Birth} {time : Nat}
  {effects : List Effect} {studio later last : Studio}

/-- What happens between two moments to the box that was born so, all of it at one time. Effects that the
box asked for are still to be carried out at first, and are carried out then. -/
def Told (allowed : Sheet → Nat → Nat → Prop) (catalog : Catalog) (birth : Birth) (time : Nat)
    (effects : List Effect) (studio later : Studio) : Prop :=
  ∀ state, studio.Lives birth.handle state → (state = none → effects = []) →
    ∃ state' events diary, later.Lives birth.handle state' ∧ later.events = events ++ studio.events ∧
      happenings birth.handle events = effects.filterMap Effect.output? ++ diary ∧
      Clockwork.Tale allowed (birth.Begins catalog) (state.map (Clockwork.ask time effects))
        (diary.map (Prod.mk time)) state'

namespace Told

/-- Nothing may happen. -/
theorem of_spares (h : Spares birth.handle studio later) :
    Told allowed catalog birth time [] studio later := by
  intro state hlives _
  obtain ⟨events, hevents, hnone⟩ := h.events
  refine ⟨state, events, [], hlives.spares h, hevents, hnone, ?_⟩
  rw [Clockwork.map_ask_nil]
  exact .refl state

theorem refl (studio : Studio) : Told allowed catalog birth time [] studio studio :=
  of_spares (.refl _ studio)

theorem trans (h : Told allowed catalog birth time effects studio later)
    (hlast : Told allowed catalog birth time [] later last) :
    Told allowed catalog birth time effects studio last := by
  intro state hlives heffects
  obtain ⟨between, events, diary, hbetween, hevents, hhappened, htale⟩ := h state hlives heffects
  obtain ⟨final, more, others, hfinal, hmore, hothers, hrest⟩ := hlast between hbetween fun _ => rfl
  rw [Clockwork.map_ask_nil] at hrest
  refine ⟨final, more ++ events, diary ++ others, hfinal, ?_, ?_, ?_⟩
  · rw [hmore, hevents, List.append_assoc]
  · rw [happenings_append, hhappened, hothers, List.filterMap_nil, List.nil_append, List.append_assoc]
  · rw [List.map_append]
    exact htale.trans hrest

/-- A message that the box sends is noted. -/
theorem send {outlet : Nat} {atoms : List Atom}
    (hrest : Told allowed catalog birth time []
      { studio with events := .sent birth.handle outlet atoms :: studio.events } later) :
    Told allowed catalog birth time [.send outlet atoms] studio later := by
  intro state hlives _
  obtain ⟨final, events, diary, hfinal, hevents, hhappened, htale⟩ :=
    hrest state (hlives.of_same rfl rfl rfl) fun _ => rfl
  refine ⟨final, events ++ [.sent birth.handle outlet atoms], diary, hfinal, ?_, ?_, ?_⟩
  · rw [hevents, List.append_assoc]
    rfl
  · rw [happenings_append, hhappened]
    simp [happenings, Event.at?, Effect.output?]
  · exact htale

/-- A tick that the box asks for waits. -/
theorem tickAfter (horderly : studio.timeline.Orderly) (hnow : studio.timeline.now = time) (wait : Nat)
    (hrest : Told allowed catalog birth time effects
      (studio.tickAfter birth.handle studio.clock wait).1 later) :
    Told allowed catalog birth time (.tickAfter studio.clock wait :: effects) studio later := by
  intro state hlives heffects
  cases state with
  | none => cases heffects rfl
  | some clockwork =>
    obtain ⟨final, events, diary, hfinal, hevents, hhappened, htale⟩ :=
      hrest _ (hlives.tickAfter horderly wait) nofun
    rw [events_tickAfter] at hevents
    refine ⟨final, events, diary, hfinal, hevents, hhappened, ?_⟩
    have hask : Clockwork.ask time effects
        (Clockwork.ask studio.timeline.now [.tickAfter studio.clock wait] clockwork) =
          Clockwork.ask time (.tickAfter studio.clock wait :: effects) clockwork := by
      simp only [hnow, Clockwork.ask, List.filterMap_cons, Effect.deadline?, List.filterMap_nil,
        ← Multiset.cons_coe, Multiset.coe_nil, Multiset.cons_add, Multiset.add_cons, Multiset.zero_add]
    rw [Option.map_some, hask] at htale
    exact htale

/-- The box is built where there was none. -/
theorem built {plan : Plan Machine} (hplan : birth.plan? catalog = some plan) {timing : Timing}
    (htiming : plan.state studio.clock = .timing timing) (hgeneration : timing.generation = studio.clock)
    (hfresh : studio.still? birth.handle = none) {site : Site} {detail : Dico}
    (hstill : later.still? birth.handle = some (assemble site plan detail studio.clock).still)
    (hclock : later.clock = studio.clock) (hevents : later.events = studio.events) :
    Told allowed catalog birth time [] studio later := by
  intro state hlives _
  cases hlives with
  | born hborn =>
    rw [hfresh] at hborn
    cases hborn
  | unborn =>
    refine ⟨_, [], [], .born hstill ?_ (hgeneration.trans hclock.symm), hevents, rfl,
      .born ⟨plan, _, detail, hplan, htiming, rfl⟩ (.nil _)⟩
    show (plan.state studio.clock).silenced = .timing timing
    rw [htiming]
    rfl

/-- The box reacts to something that is noted, and its effects are carried out. -/
theorem react {clockwork before : Clockwork} {cause : Happening} {event : Event}
    {reaction : Reaction Timing} {settled : Studio}
    (hact : Clockwork.Act allowed clockwork (Clockwork.entries time cause reaction)
      (before.settle time reaction))
    (hsettled : settled.Lives birth.handle
      (some { before with timing := reaction.state, sheet := reaction.sheet }))
    (hevents : settled.events = event :: studio.events) (hevent : event.at? birth.handle = some cause)
    (hrest : Told allowed catalog birth time reaction.effects settled later) :
    ∃ final events diary, later.Lives birth.handle final ∧ later.events = events ++ studio.events ∧
      happenings birth.handle events = diary ∧
      Clockwork.Tale allowed (birth.Begins catalog) (some clockwork) (diary.map (Prod.mk time)) final := by
  obtain ⟨final, events, diary, hfinal, hmore, hhappened, htale⟩ := hrest _ hsettled nofun
  refine ⟨final, events ++ [event], (cause :: reaction.effects.filterMap Effect.output?) ++ diary, hfinal,
    ?_, ?_, ?_⟩
  · rw [hmore, hevents, List.append_assoc]
    rfl
  · rw [happenings_append, hhappened]
    simp [happenings, hevent]
  · rw [List.map_append]
    cases htale with
    | lives htrace => exact .lives (.cons hact htrace)

/-- The box takes in a message. -/
theorem receive {box : Box} (hbox : studio.taker? birth.handle = some box)
    (hnow : studio.timeline.now = time) {inlet : Nat} {atoms : List Atom} {reaction : Reaction Machine}
    (hreaction : box.machine.receive (studio.surroundings birth.handle box.sheet) inlet atoms = reaction)
    (hrest : Timing.Asks studio.clock reaction.effects →
      Told allowed catalog birth time reaction.effects
        ((studio.entered birth.handle inlet atoms).settleReaction birth.handle reaction) later) :
    Told allowed catalog birth time [] studio later := by
  intro state hlives _
  obtain ⟨patch, hpatch, hfound⟩ := exists_of_taker? hbox
  cases state with
  | none => exact absurd rfl (hlives.ne_none hpatch hfound)
  | some clockwork =>
    obtain ⟨hmachine, hsheet⟩ := hlives.eq_box hpatch hfound
    obtain rfl : (clockwork.timing.receive (studio.surroundings birth.handle box.sheet) inlet atoms).map
        Machine.timing = reaction := by
      rw [← hreaction, hmachine]
      rfl
    have hentered : (studio.entered birth.handle inlet atoms).Lives birth.handle (some clockwork) :=
      hlives.of_same rfl rfl rfl
    let here := studio.surroundings birth.handle box.sheet
    have hsound := Timing.sound_receive here inlet atoms clockwork.timing
    subst hnow
    rw [Clockwork.map_ask_nil]
    exact react (.received clockwork here hsheet inlet atoms) (hentered.settle hsound)
      (events_settleReaction _ _ _) (if_pos rfl) (hrest (hlives.clock ▸ hsound.asks))

/-- The tick of the box that is due first is taken. -/
theorem tick {entry : Timed Task} {timeline : Timeline Task} {box : Box} {patch : Patch}
    (hnext : studio.timeline.next? = some (entry, timeline)) (horderly : studio.timeline.Orderly)
    (htask : entry.task = .tick birth.handle) (hpatch : studio.patch? birth.patch = some patch)
    (hbox : patch.box? birth.site.id = some box)
    (hallowed : allowed box.sheet entry.deadline timeline.now) {reaction : Reaction Machine}
    (hreaction : box.machine.tick
      (({ studio with timeline } : Studio).surroundings birth.handle box.sheet) = reaction)
    (hrest : Timing.Asks studio.clock reaction.effects →
      Told allowed catalog birth timeline.now reaction.effects
        (({ studio with timeline, events := .ticked birth.handle :: studio.events } :
          Studio).settleReaction birth.handle reaction) later) :
    Told allowed catalog birth timeline.now [] studio later := by
  intro state hlives _
  obtain ⟨hqueue, hlater⟩ := Timeline.next?_eq_some hnext
  have hfound := Patch.boxOrRetired?_of_box? hbox
  cases state with
  | none => exact absurd rfl (hlives.ne_none hpatch hfound)
  | some clockwork =>
    obtain ⟨hmachine, hsheet⟩ := hlives.eq_box hpatch hfound
    let here := ({ studio with timeline } : Studio).surroundings birth.handle box.sheet
    obtain rfl : (clockwork.timing.tick here).map Machine.timing = reaction := by
      rw [← hreaction, hmachine]
      rfl
    obtain ⟨rest, hticks, hfirst, hadvanced⟩ := hlives.taken horderly hnext htask
    have hnoted : ({ studio with timeline, events := .ticked birth.handle :: studio.events } :
        Studio).Lives birth.handle (some { clockwork with ticks := rest }) :=
      hadvanced.of_same rfl rfl rfl
    have hdue : entry.deadline ≤ timeline.now := by
      rw [hlater]
      exact Nat.le_max_right _ _
    rw [Clockwork.map_ask_nil]
    have hsound := Timing.sound_tick here clockwork.timing
    exact react (.ticked clockwork here hsheet hticks hfirst hdue (hsheet ▸ hallowed))
      (hnoted.settle hsound) (events_settleReaction _ _ _) (if_pos rfl)
      (hrest (hlives.clock ▸ hsound.asks))

end Told

/-- A box that has been put into a patch looks as it was assembled, and all others look as they did. -/
theorem still?_install {number : Nat} {patch : Patch} (hpatch : studio.patch? number = some patch)
    (htagged : patch.Tagged) {box : Box} (hid : box.id = patch.nextId) (service : Service)
    (handle : Handle) :
    ((studio.provide ⟨number, patch.nextId⟩ service).1.setPatch number
      (patch.reserve.1.install box)).still? handle =
      if handle = ⟨number, patch.nextId⟩ then some box.still else studio.still? handle := by
  have hprovided : ∀ place, (studio.provide ⟨number, patch.nextId⟩ service).1.patch? place =
      studio.patch? place := studio.patch?_provide _ _
  have helsewhere : (studio.provide ⟨number, patch.nextId⟩ service).1.still? handle =
      studio.still? handle := by
    rw [Studio.still?, hprovided, Studio.still?]
  rw [still?_setPatch ((hprovided number).trans hpatch), Patch.still?_install htagged hid, helsewhere]
  obtain ⟨place, id⟩ := handle
  by_cases hplace : place = number
  · subst hplace
    simp [Studio.still?, hpatch]
  · have hne : (⟨place, id⟩ : Handle) ≠ ⟨number, patch.nextId⟩ := fun hsame =>
      hplace (congrArg Handle.patch hsame)
    rw [if_neg hplace, if_neg hne]

/-- Who is bound to a beacon after a service was provided was bound before, or is a hearer. -/
theorem mem_castaways_provide {handle : Handle} {service : Service} {number : Nat} {someone : Castaway}
    (h : someone ∈ (studio.provide handle service).1.registry.castaways number) :
    someone ∈ studio.registry.castaways number ∨
      someone = .box handle ∧ ∃ beacon, service = .listen beacon := by
  cases service with
  | none | clock => exact Or.inl h
  | speak beacon => exact Or.inl ((Registry.castaways_create _ _ _).symm ▸ h)
  | listen beacon =>
    rcases Registry.mem_castaways_bind h with hnew | hold
    · exact Or.inr ⟨hnew, beacon, rfl⟩
    · exact Or.inl ((Registry.castaways_create _ _ _).symm ▸ hold)

/-- When castaways that are gone are unbound nobody is bound. -/
theorem mem_castaways_prune {number : Nat} {someone : Castaway}
    (h : someone ∈ studio.prune.registry.castaways number) :
    someone ∈ studio.registry.castaways number := by
  rw [Studio.prune, Registry.castaways_forget] at h
  exact (List.mem_filter.mp h).1

/-- Nor is anybody by an edit. -/
theorem mem_castaways_editPatch {place number : Nat} {edit : Patch → Except PatchError Patch}
    {someone : Castaway} (h : someone ∈ (studio.editPatch place edit).1.registry.castaways number) :
    someone ∈ studio.registry.castaways number := by
  rcases studio.editPatch_cases place edit with ⟨hsame, -⟩ | ⟨_, other, -, -, hdone⟩
  · rwa [hsame] at h
  · rw [hdone] at h
    exact (studio.setPatch place other).mem_castaways_prune h

end Studio

namespace Roster

variable {allowed : Sheet → Nat → Nat → Prop} {catalog : Catalog} {target : Handle} {birth : Birth}
  {time : Nat} {effects : List Effect} {roster later : Roster} {studio : Studio} {number : Nat}

/-- If there is a box of the handle on the roster, it is a timing box that was born so, and it is
present. -/
structure Owns (catalog : Catalog) (target : Handle) (roster : Roster) (birth : Birth) : Prop where
  handle : birth.handle = target
  timed : birth.IsTimed catalog
  only : ∀ other ∈ roster.births, other.handle = target → other = birth
  stays : birth ∈ roster.births → birth ∈ roster.present

/-- What is true of the box in the end was true before. -/
theorem Owns.earlier (h : later.Owns catalog target birth) (hsound : roster.Sound)
    (hleads : roster.Leads later) : roster.Owns catalog target birth where
  handle := h.handle
  timed := h.timed
  only other hother := h.only other (hleads.births.subset hother)
  stays hbirth := by
    by_contra habsent
    exact hleads.absent hsound hbirth habsent (h.stays (hleads.births.subset hbirth))

/-- The studio of the roster becomes another, and what happens on the way to the box of a handle is told,
if it is a timing box and present in the end. -/
def Tells (allowed : Sheet → Nat → Nat → Prop) (catalog : Catalog) (target : Handle) (time : Nat)
    (effects : List Effect) (roster : Roster) (studio : Studio) : Prop :=
  ∃ later, roster.Leads later ∧ later.studio = studio ∧ ∀ birth, later.Owns catalog target birth →
    roster.studio.Told allowed catalog birth time effects studio

namespace Tells

/-- Nothing is told of a box that is spared. -/
theorem of_spares (hbecomes : roster.Becomes studio) (hspares : Spares target roster.studio studio) :
    roster.Tells allowed catalog target time [] studio := by
  obtain ⟨later, hleads, hlater⟩ := hbecomes
  refine ⟨later, hleads, hlater, fun birth howns => ?_⟩
  obtain rfl := howns.handle
  exact .of_spares hspares

theorem refl (roster : Roster) : roster.Tells allowed catalog target time [] roster.studio :=
  .of_spares (.refl roster) (.refl _ _)

theorem step (hstep : Step roster later) (hspares : Spares target roster.studio later.studio) :
    roster.Tells allowed catalog target time [] later.studio := .of_spares (.step hstep) hspares

theorem trans (h : roster.Tells allowed catalog target time effects studio) (hsound : roster.Sound)
    {last : Studio} (hlast : ∀ later : Roster, roster.Leads later → later.studio = studio →
      later.Tells allowed catalog target time [] last) :
    roster.Tells allowed catalog target time effects last := by
  obtain ⟨later, hleads, rfl, htold⟩ := h
  obtain ⟨final, hfinal, rfl, hrest⟩ := hlast later hleads rfl
  refine ⟨final, hleads.trans hfinal, rfl, fun birth howns => ?_⟩
  exact (htold birth (howns.earlier (hsound.leads hleads) hfinal)).trans (hrest birth howns)

/-- What is told if something is true becomes so anyway. -/
theorem of_imp {p : Prop} (hbecomes : roster.Becomes studio)
    (htells : p → roster.Tells allowed catalog target time effects studio) :
    ∃ later, roster.Leads later ∧ later.studio = studio ∧ ∀ birth, later.Owns catalog target birth →
      p → roster.studio.Told allowed catalog birth time effects studio := by
  by_cases hp : p
  · obtain ⟨later, hleads, hlater, htold⟩ := htells hp
    exact ⟨later, hleads, hlater, fun birth howns _ => htold birth howns⟩
  · obtain ⟨later, hleads, hlater⟩ := hbecomes
    exact ⟨later, hleads, hlater, fun _ _ hyes => absurd hyes hp⟩

end Tells

/-- Building a box is told, be it this one or another. -/
theorem tells_create (hsound : roster.Sound) (hcatalog : roster.studio.catalog = catalog) (number : Nat)
    (detail : Dico) :
    roster.Tells allowed catalog target time [] (roster.studio.create number detail).1 := by
  have hpunctual := roster.studio.punctual_create number detail
  have hevents := Studio.events_create roster.studio number detail
  rcases roster.studio.create_outcomes number detail with ⟨_, heq⟩ | ⟨patch, _, hpatch, heq⟩ |
    ⟨patch, name, arguments, plan, service, hpatch, hdescribe, hplan, hservice, heq⟩
  · rw [heq]
    exact .refl roster
  · refine .step (.refuse roster number detail (congrArg Prod.snd heq)) (.of_punctual hpunctual ?_ hevents)
    have hsame : ∀ id, patch.reserve.1.still? id = patch.still? id := fun _ => rfl
    rw [heq]
    exact Studio.still?_setPatch_of_still? hpatch hsame _
  · set made : Birth := ⟨number, name, arguments, detail.keys, patch.nextId⟩ with hmade
    have htagged := hsound.housed.tagged number patch hpatch
    have hstill : ∀ handle, (roster.studio.create number detail).1.still? handle =
        if handle = made.handle then some (assemble made.site plan detail service).still
        else roster.studio.still? handle := by
      rw [heq]
      exact Studio.still?_install hpatch htagged rfl plan.service
    refine ⟨_, .single (.create roster number detail (congrArg Prod.snd heq) hdescribe), rfl,
      fun birth howns => ?_⟩
    obtain rfl := howns.handle
    by_cases hhandle : birth.handle = made.handle
    · have hsame : made = birth :=
        howns.only made (List.mem_append_right _ (List.mem_singleton_self _)) hhandle.symm
      obtain ⟨known, hknown, hclock, hstates⟩ := howns.timed
      obtain rfl : plan = known := Option.some.inj
        (hplan.symm.trans ((hcatalog ▸ hsame ▸ hknown : made.plan? roster.studio.catalog = some known)))
      obtain rfl : roster.studio.clock = service := by
        rw [← hservice, hclock]
        rfl
      have hfresh : roster.studio.still? made.handle = none := by
        show (roster.studio.patch? number).bind _ = none
        rw [hpatch, Option.bind_some]
        exact htagged.still?_nextId
      obtain ⟨timing, htiming, hgeneration⟩ := hstates roster.studio.clock
      exact .built hknown htiming hgeneration (hhandle ▸ hfresh) ((hstill _).trans (if_pos hhandle))
        hpunctual.clock hevents
    · exact .of_spares (.of_punctual hpunctual ((hstill _).trans (if_neg hhandle)) hevents)

/-- Who is bound to a beacon was built to hear one. -/
def Bound (catalog : Catalog) (roster : Roster) : Prop :=
  ∀ number handle, .box handle ∈ roster.studio.registry.castaways number →
    ∃ birth ∈ roster.births, birth.handle = handle ∧ ∃ name, birth.hears catalog name = true

theorem Bound.of_subset (h : Bound catalog roster) (hbirths : roster.births <+: later.births)
    (hregistry : ∀ number castaway, castaway ∈ later.studio.registry.castaways number →
      castaway ∈ roster.studio.registry.castaways number) : Bound catalog later := by
  intro number handle hmem
  obtain ⟨birth, hbirth, hhears⟩ := h number handle (hregistry _ _ hmem)
  exact ⟨birth, hbirths.subset hbirth, hhears⟩

theorem Step.bound (hstep : Step roster later) (hcatalog : roster.studio.catalog = catalog)
    (h : Bound catalog roster) : Bound catalog later := by
  have hbirths := hstep.births
  cases hstep with
  | addPatch | time => exact h
  | dropPatch => exact h.of_subset hbirths fun _ _ => Studio.mem_castaways_prune
  | remove | clear | rewire => exact h.of_subset hbirths fun _ _ => Studio.mem_castaways_editPatch
  | name name =>
    refine h.of_subset hbirths fun number castaway hmem => ?_
    rwa [Registry.castaways_create] at hmem
  | aside halike =>
    refine h.of_subset hbirths fun number castaway hmem => ?_
    rwa [halike.registry] at hmem
  | refuse number detail hcreate =>
    refine h.of_subset hbirths fun place castaway hmem => ?_
    rcases roster.studio.create_outcomes number detail with ⟨_, heq⟩ | ⟨_, _, -, heq⟩ |
      ⟨_, _, _, _, _, -, -, -, -, heq⟩
    · rwa [heq] at hmem
    · rwa [heq] at hmem
    · rw [heq] at hcreate
      cases hcreate
  | @create number detail id name arguments hcreate hdescribe =>
    rcases roster.studio.create_outcomes number detail with ⟨_, heq⟩ | ⟨_, _, -, heq⟩ |
      ⟨patch, found, others, plan, service, -, hfound, hplan, -, heq⟩
    · rw [heq] at hcreate
      cases hcreate
    · rw [heq] at hcreate
      cases hcreate
    rw [heq] at hcreate
    obtain rfl := Except.ok.inj hcreate
    obtain ⟨rfl, rfl⟩ := Prod.mk.inj (Except.ok.inj (hdescribe.symm.trans hfound))
    intro place handle hmem
    rw [heq] at hmem
    rcases Studio.mem_castaways_provide hmem with hold | ⟨hnew, beacon, hlisten⟩
    · obtain ⟨birth, hbirth, hhears⟩ := h place handle hold
      exact ⟨birth, List.mem_append_left _ hbirth, hhears⟩
    · refine ⟨_, List.mem_append_right _ (List.mem_singleton_self _), (Castaway.box.inj hnew).symm,
        beacon, ?_⟩
      rw [Birth.hears, ← hcatalog, hplan, Option.any_some, hlisten, beq_self_eq_true]

theorem Reached.bound (h : Reached catalog roster) : Bound catalog roster := by
  induction h with
  | refl =>
    intro number handle hmem
    cases hmem
  | tail hearlier hstep ih => exact hstep.bound (Reached.catalog hearlier) ih

/-- A timing box is bound to no beacon. -/
theorem Owns.unbound (h : roster.Owns catalog target birth) (hreached : Reached catalog roster)
    (number : Nat) : .box target ∉ roster.studio.registry.castaways number := by
  intro hmem
  obtain ⟨other, hother, hhandle, name, hhears⟩ := hreached.bound number target hmem
  obtain rfl := h.only other hother hhandle
  obtain ⟨plan, hplan, hservice, -⟩ := h.timed
  rw [Birth.hears, hplan, Option.any_some, hservice] at hhears
  cases hhears

/-- So a broadcast need be told only if the box is not bound to the beacon. -/
theorem Reached.tells_of_unbound (hreached : Reached catalog roster) (number : Nat)
    (hbecomes : roster.Becomes studio)
    (htells : .box target ∉ roster.studio.registry.castaways number →
      roster.Tells allowed catalog target time [] studio) :
    roster.Tells allowed catalog target time [] studio := by
  by_cases hbound : .box target ∈ roster.studio.registry.castaways number
  · obtain ⟨later, hleads, hlater⟩ := hbecomes
    refine ⟨later, hleads, hlater, fun birth howns => ?_⟩
    exact absurd hbound ((howns.earlier hreached.sound hleads).unbound hreached number)
  · exact htells hbound

/-- What a box edits in its patch is told. -/
theorem tells_applyEdit (hsound : roster.Sound) (hcatalog : roster.studio.catalog = catalog) (number : Nat)
    (edit : Edit) :
    roster.Tells allowed catalog target time [] (roster.studio.applyEdit number edit).1 := by
  have htagged := hsound.housed.tagged number
  cases edit with
  | remove id =>
    refine .step (.remove roster number id) (.editPatch (fun patch later hpatch hremove => ?_) _)
    exact (Patch.rearranged_remove (htagged patch hpatch) hremove).still? (htagged patch hpatch)
  | connect source outlet target inlet =>
    refine .step (.rewire roster number fun _ _ => Patch.sameStills_connect)
      (.editPatch (fun patch later _ hconnect => ?_) _)
    exact (Patch.sameStills_connect hconnect).still?
  | disconnect source outlet target inlet =>
    refine .step (.rewire roster number fun _ _ => Patch.sameStills_disconnect)
      (.editPatch (fun patch later _ hdisconnect => ?_) _)
    exact (Patch.sameStills_disconnect hdisconnect).still?
  | create words => exact tells_create hsound hcatalog number _
  | clear =>
    refine .step (.clear roster number) (.editPatch (fun patch later hpatch hclear => ?_) _)
    obtain rfl := Except.ok.inj hclear
    exact patch.rearranged_clear.still? (htagged patch hpatch)

end Roster

namespace Studio

variable {studio later last : Studio} {handle : Handle} {clock : Nat}

/-- Time stands still, and the clock is the same. -/
structure SameTime (studio later : Studio) : Prop where
  now : later.timeline.now = studio.timeline.now
  clock : later.clock = studio.clock

theorem SameTime.trans (h : studio.SameTime later) (hlast : later.SameTime last) : studio.SameTime last :=
  ⟨hlast.now.trans h.now, hlast.clock.trans h.clock⟩

theorem Punctual.sameTime (h : studio.Punctual later) : studio.SameTime later :=
  ⟨congrArg Timeline.now h.timeline, h.clock⟩

theorem SameTime.of_alike (h : studio.Alike later) : studio.SameTime later :=
  ⟨congrArg Timeline.now h.timeline, h.clock⟩

theorem SameTime.tickAfter (studio : Studio) (handle : Handle) (clock wait : Nat) :
    studio.SameTime (studio.tickAfter handle clock wait).1 := by
  unfold Studio.tickAfter
  split
  · refine ⟨?_, rfl⟩
    show (studio.timeline.schedule wait (.tick handle)).1.now = _
    unfold Timeline.schedule
    split <;> rfl
  · exact ⟨rfl, rfl⟩

/-- Time stands still while messages are on their way. -/
theorem Runs.sameTime {most depth : Nat} {call : Call} {outcome : Bool}
    (h : Runs most depth call studio later outcome) : studio.SameTime later := by
  induction h with
  | dropped | noTarget | nowhere | absent | reachedAll | noEffect => exact ⟨rfl, rfl⟩
  | taken hroom hbox hreaction heffects ih =>
    subst hreaction
    exact (SameTime.of_alike (.receive hbox _ _)).trans (ih.trans ⟨rfl, rfl⟩)
  | sent hpatch htargets ih => exact ⟨ih.now, ih.clock⟩
  | heard hheard => exact .of_alike (.hearing hheard)
  | replied hheard hreply ih => exact (SameTime.of_alike (.hearing hheard)).trans ih
  | @atOnce depth handle effect studio after outcome hdone =>
    cases effect with
    | send | broadcast => cases hdone
    | print line =>
      obtain ⟨rfl, -⟩ := Prod.mk.inj (Option.some.inj hdone)
      exact .of_alike (.print _ line)
    | tickAfter clock wait =>
      obtain rfl : (studio.tickAfter handle clock wait).1 = after :=
        congrArg Prod.fst (Option.some.inj hdone)
      exact .tickAfter studio handle clock wait
    | edit edit =>
      obtain rfl : (studio.applyEdit handle.patch edit).1 = after :=
        congrArg Prod.fst (Option.some.inj hdone)
      cases edit with
      | create words => exact (studio.punctual_create _ _).sameTime
      | remove | connect | disconnect | clear => exact (studio.punctual_editPatch _ _).sameTime
  | present halive hrun ih | send hrun ih | broadcast hrun ih => exact ih
  | target hfirst hrest ihFirst ihRest | reached hfirst hrest ihFirst ihRest
  | effect hfirst hrest ihFirst ihRest => exact ihFirst.trans ihRest

/-- The effects of a box that a call carries out. -/
def Call.asked (handle : Handle) : Call → List Effect
  | .sendOut place outlet atoms => if place = handle then [.send outlet atoms] else []
  | .effect place wanted => if place = handle then [wanted] else []
  | .carryOut place effects => if place = handle then effects else []
  | _ => []

/-- What a call carries out for a box is what a timing box asks for, and it broadcasts nothing to it. -/
def Call.Suits (handle : Handle) (clock : Nat) : Call → Prop
  | .castaway _ someone => someone ≠ .box handle
  | .reach _ castaways => .box handle ∉ castaways
  | .effect place wanted => place = handle → Timing.Asks clock [wanted]
  | .carryOut place effects => place = handle → Timing.Asks clock effects
  | _ => True

end Studio

namespace Roster

variable {allowed : Sheet → Nat → Nat → Prop} {catalog : Catalog} {target : Handle} {time : Nat}

/-- What a call brings about is told, wherever it is made, if the call suits the box. -/
def Reports (allowed : Sheet → Nat → Nat → Prop) (catalog : Catalog) (target : Handle) (time : Nat)
    (call : Studio.Call) (before after : Studio) : Prop :=
  ∀ roster : Roster, Reached catalog roster → roster.studio = before → before.timeline.now = time →
    call.Suits target before.clock → roster.Tells allowed catalog target time (call.asked target) after

namespace Reports

variable {call first rest : Studio.Call} {before between after : Studio} {handle : Handle}
  {most depth : Nat} {outcome : Bool}

/-- A call that does nothing is reported. -/
theorem idle (hnone : call.asked target = []) :
    Reports allowed catalog target time call before before := by
  rintro roster - rfl - -
  rw [hnone]
  exact .refl roster

/-- Two calls one after the other are reported, if the second carries out nothing for the box. -/
theorem trans (hfirst : Reports allowed catalog target time first before between)
    (htime : before.SameTime between) (hrest : Reports allowed catalog target time rest between after)
    (hasked : call.asked target = first.asked target) (hnone : rest.asked target = [])
    (hsuits : call.Suits target before.clock →
      first.Suits target before.clock ∧ rest.Suits target between.clock) :
    Reports allowed catalog target time call before after := by
  intro roster hreached hstudio hnow hcall
  obtain ⟨hfirstSuits, hrestSuits⟩ := hsuits hcall
  rw [hasked]
  refine (hfirst roster hreached hstudio hnow hfirstSuits).trans hreached.sound
    fun later hlater hbetween => ?_
  exact hnone ▸ hrest later (hreached.trans hlater) hbetween (htime.now.trans hnow) hrestSuits

/-- What comes after something that spares the box is reported as a part of it. -/
theorem after_spares (halike : before.Alike between) (hspares : Spares target before between)
    (hrest : Reports allowed catalog target time rest between after)
    (hasked : call.asked target = []) (hnone : rest.asked target = [])
    (hsuits : rest.Suits target between.clock) :
    Reports allowed catalog target time call before after := by
  rintro roster hreached rfl hnow -
  rw [hasked]
  refine Tells.trans (.of_spares (.aside halike) hspares) hreached.sound fun later hlater hbetween => ?_
  exact hnone ▸ hrest later (hreached.trans hlater) hbetween
    ((SameTime.of_alike halike).now.trans hnow) hsuits

/-- A box that has been built is in a patch that is there. -/
theorem nowhere {outlet : Nat} {atoms : List Atom} (hnone : before.patch? handle.patch = none) :
    Reports allowed catalog target time (.sendOut handle outlet atoms) before before := by
  by_cases hplace : handle = target
  · rintro roster - rfl - -
    subst hplace
    refine ⟨roster, .refl, rfl, fun birth howns => ?_⟩
    obtain rfl := howns.handle
    intro state hlives heffects
    cases state with
    | none => exact absurd (heffects rfl) (by simp [Call.asked])
    | some clockwork =>
      obtain ⟨patch, _, hpatch, -⟩ := hlives.exists_box
      rw [hnone] at hpatch
      cases hpatch
  · exact .idle (if_neg hplace)

/-- A message that a box takes in is reported with what the box asks for on it. -/
theorem taken {inlet : Nat} {atoms : List Atom} {box : Box} {reaction : Reaction Machine}
    (h : Reports allowed catalog target time (.carryOut handle reaction.effects)
      ((before.entered handle inlet atoms).settleReaction handle reaction) after)
    (hrun : Runs most depth (.carryOut handle reaction.effects)
      ((before.entered handle inlet atoms).settleReaction handle reaction) after outcome)
    (hbox : before.taker? handle = some box)
    (hreaction : box.machine.receive (before.surroundings handle box.sheet) inlet atoms = reaction) :
    Reports allowed catalog target time (.deliver handle inlet atoms) before after.left := by
  rintro roster hreached rfl hnow -
  have halike : roster.studio.Alike
      ((roster.studio.entered handle inlet atoms).settleReaction handle reaction) :=
    hreaction ▸ Alike.receive hbox inlet atoms
  let settled : Roster := { roster with
    studio := (roster.studio.entered handle inlet atoms).settleReaction handle reaction }
  have hsettled : roster.Leads settled := .single (.aside halike)
  have hsame := SameTime.of_alike halike
  have hreport := h settled (hreached.trans hsettled) rfl (hsame.now.trans hnow)
  by_cases hplace : handle = target
  · subst hplace
    have hasked : (Call.carryOut handle reaction.effects).asked handle = reaction.effects := if_pos rfl
    rw [hasked] at hreport
    obtain ⟨later, hleads, rfl, htold⟩ := Tells.of_imp (becomes_run hrun settled rfl)
      fun hasks : Timing.Asks roster.studio.clock reaction.effects =>
        hreport fun _ => hsame.clock ▸ hasks
    refine ⟨{ later with studio := later.studio.left },
      (hsettled.trans hleads).tail (.aside (.left _)), rfl, fun birth howns => ?_⟩
    obtain rfl := howns.handle
    have hsameOwns : later.Owns catalog birth.handle birth :=
      ⟨howns.handle, howns.timed, howns.only, howns.stays⟩
    exact (Told.receive hbox hnow hreaction (htold birth hsameOwns)).trans (.of_spares (.left _ _))
  · have hspares : Spares target roster.studio settled.studio :=
      (Spares.entered hplace roster.studio inlet atoms).trans (.settleReaction hplace reaction)
    have hreacted : Reports allowed catalog target time (.deliver handle inlet atoms) roster.studio after :=
      .after_spares halike hspares h rfl (if_neg hplace) fun hsame => absurd hsame hplace
    refine (hreacted roster hreached rfl hnow trivial).trans hreached.sound fun last _ hlast => ?_
    subst hlast
    exact .step (.aside (.left _)) (.left _ _)

/-- A message that a box sends is reported with what comes of it. -/
theorem sent {number outlet : Nat} {atoms : List Atom} {targets : List (Nat × Nat)}
    (h : Reports allowed catalog target time (.deliverAll number atoms targets)
      { before with events := .sent handle outlet atoms :: before.events } after) :
    Reports allowed catalog target time (.sendOut handle outlet atoms) before after := by
  by_cases hplace : handle = target
  · rintro roster hreached rfl hnow -
    subst hplace
    let noted : Roster := { roster with
      studio := { roster.studio with
        events := .sent handle outlet atoms :: roster.studio.events } }
    have hstep : Step roster noted := .aside (.note _ _)
    obtain ⟨later, hleads, hlater, htold⟩ := h noted (hreached.tail hstep) rfl hnow trivial
    simp only [Call.asked, if_true]
    refine ⟨later, .head hstep hleads, hlater, fun birth howns => ?_⟩
    obtain rfl := howns.handle
    exact .send (htold birth howns)
  · have hevent : (Event.sent handle outlet atoms).at? target = none := if_neg hplace
    exact .after_spares (.note _ _) (.note _ hevent) h (if_neg hplace) rfl trivial

/-- An effect that is over at once is reported. -/
theorem atOnce {effect : Effect} (hdone : before.atOnce? handle effect = some (after, outcome)) :
    Reports allowed catalog target time (.effect handle effect) before after := by
  rintro roster hreached rfl hnow hsuits
  by_cases hplace : handle = target
  · subst hplace
    simp only [Call.asked, if_true]
    cases hsuits rfl with
    | bang => cases hdone
    | tick wait =>
      obtain rfl : (roster.studio.tickAfter handle roster.studio.clock wait).1 = after :=
        congrArg Prod.fst (Option.some.inj hdone)
      obtain ⟨later, hleads, hlater⟩ := becomes_tickAfter roster handle roster.studio.clock wait
      refine ⟨later, hleads, hlater, fun birth howns => ?_⟩
      obtain rfl := howns.handle
      exact .tickAfter hreached.orderly hnow wait (.refl _)
  · simp only [Call.asked, if_neg hplace]
    cases effect with
    | send | broadcast => cases hdone
    | print line =>
      obtain ⟨rfl, -⟩ := Prod.mk.inj (Option.some.inj hdone)
      exact .of_spares (.aside (.print _ line)) (.print _ _ line)
    | tickAfter clock wait =>
      obtain rfl : (roster.studio.tickAfter handle clock wait).1 = after :=
        congrArg Prod.fst (Option.some.inj hdone)
      exact .of_spares (becomes_tickAfter roster handle clock wait) (.tickAfter hplace _ clock wait)
    | edit edit =>
      obtain rfl : (roster.studio.applyEdit handle.patch edit).1 = after :=
        congrArg Prod.fst (Option.some.inj hdone)
      exact tells_applyEdit hreached.sound hreached.catalog handle.patch edit

/-- A broadcast is reported if who is reached by it is, since a timing box is not. -/
theorem broadcast {beacon : Nat} {atoms : List Atom}
    (h : Reports allowed catalog target time (.reach atoms (before.registry.castaways beacon)) before after)
    (hrun : Runs most depth (.reach atoms (before.registry.castaways beacon)) before after outcome) :
    Reports allowed catalog target time (.effect handle (.broadcast beacon atoms)) before after := by
  rintro roster hreached rfl hnow hsuits
  have hplace : handle ≠ target := by
    intro hsame
    cases hsuits hsame
  simp only [Call.asked, if_neg hplace]
  exact hreached.tells_of_unbound beacon (becomes_run hrun roster rfl) fun hbound =>
    h roster hreached rfl hnow hbound

/-- An effect is reported with those that come after it. Of a timing box that is a message after a tick. -/
theorem effect {effect : Effect} {effects : List Effect}
    (h : Reports allowed catalog target time (.effect handle effect) before between)
    (hrun : Runs most depth (.effect handle effect) before between outcome)
    (hrest : Reports allowed catalog target time (.carryOut handle effects) between after) :
    Reports allowed catalog target time (.carryOut handle (effect :: effects)) before after := by
  by_cases hplace : handle = target
  · rintro roster hreached rfl hnow hsuits
    subst hplace
    have hlast : effects = [] → Timing.Asks roster.studio.clock [effect] →
        roster.Tells allowed catalog handle time [effect] after := by
      rintro rfl hasks
      have hreport : Reports allowed catalog handle time (.carryOut handle [effect]) roster.studio after :=
        h.trans hrun.sameTime hrest rfl (if_pos rfl) fun hsuits => ⟨hsuits, fun _ => .nothing⟩
      have hasked : (Call.carryOut handle [effect]).asked handle = [effect] := if_pos rfl
      exact hasked ▸ hreport roster hreached rfl hnow fun _ => hasks
    simp only [Call.asked, if_true]
    cases hsuits rfl with
    | bang outlet atoms => exact hlast rfl (.bang outlet atoms)
    | tick wait => exact hlast rfl (.tick wait)
    | tickAndBang wait outlet atoms =>
      obtain ⟨middle, hmiddle, hbetween⟩ := becomes_run hrun roster rfl
      obtain ⟨later, hleads, hlater, htold⟩ := hrest middle (hreached.trans hmiddle) hbetween
        (hrun.sameTime.now.trans hnow) fun _ => .bang outlet atoms
      refine ⟨later, hmiddle.trans hleads, hlater, fun birth howns => ?_⟩
      obtain rfl := howns.handle
      cases hrun with
      | atOnce hdone =>
        obtain rfl : (roster.studio.tickAfter birth.handle roster.studio.clock wait).1 = between :=
          congrArg Prod.fst (Option.some.inj hdone)
        have hasked : (Call.carryOut birth.handle [.send outlet atoms]).asked birth.handle =
            [.send outlet atoms] := if_pos rfl
        exact .tickAfter hreached.orderly hnow wait (hasked ▸ hbetween ▸ htold birth howns)
  · refine h.trans hrun.sameTime hrest ?_ (if_neg hplace) fun _ => ⟨?_, ?_⟩
    · simp only [Call.asked, if_neg hplace]
    · exact fun hsame => absurd hsame hplace
    · exact fun hsame => absurd hsame hplace

end Reports

/-- What happens to a timing box on the way of a message is told. -/
theorem reports_run {most depth : Nat} {call : Studio.Call} {before after : Studio} {outcome : Bool}
    (h : Runs most depth call before after outcome) :
    Reports allowed catalog target time call before after := by
  induction h with
  | dropped | noTarget | absent | reachedAll => exact .idle rfl
  | noEffect => exact .idle (ite_self _)
  | nowhere hnone => exact .nowhere hnone
  | taken _ hbox hreaction heffects ih => exact ih.taken heffects hbox hreaction
  | target hfirst _ ihFirst ihRest =>
    exact ihFirst.trans hfirst.sameTime ihRest rfl rfl fun _ => ⟨trivial, trivial⟩
  | sent _ _ ih => exact ih.sent
  | heard hheard =>
    rintro roster - rfl - -
    exact .step (.aside (.hearing hheard)) (.hearing hheard)
  | replied hheard _ ih =>
    exact .after_spares (.hearing hheard) (.hearing hheard) ih rfl rfl trivial
  | atOnce hdone => exact .atOnce hdone
  | @present _ handle atoms _ _ _ _ ih =>
    intro roster hreached hstudio hnow hother
    have hnone : (Call.sendOut handle 0 atoms).asked target = [] :=
      if_neg (mt (congrArg Castaway.box) hother)
    have hsent := ih roster hreached hstudio hnow trivial
    rwa [hnone] at hsent
  | send _ ih =>
    intro roster hreached hstudio hnow _
    exact ih roster hreached hstudio hnow trivial
  | broadcast hreach ih => exact ih.broadcast hreach
  | reached hfirst _ ihFirst ihRest =>
    refine ihFirst.trans hfirst.sameTime ihRest rfl rfl fun hunbound => ?_
    obtain ⟨hnotFirst, hnotRest⟩ := not_or.mp (mt List.mem_cons.mpr hunbound)
    exact ⟨Ne.symm hnotFirst, hnotRest⟩
  | effect hfirst _ ihFirst ihRest => exact ihFirst.effect hfirst ihRest

end Roster

end Patchbay
