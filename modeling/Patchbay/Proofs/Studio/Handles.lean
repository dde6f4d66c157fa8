import Patchbay.Proofs.Studio.Turns

/-!
# A handle stands for one box

A handle that was given out for a box answers for that box and no other: it is alive, and can be sent
and ticked, as long as the box is in its patch and the patch in the studio, and never again afterwards.
A tick that was asked for waits until it is taken, and then ticks that box, or does nothing at all.
-/

namespace Patchbay

/-- Decide whether a box was ticked. -/
def Event.isTick : Event → Bool
  | .ticked _ => true
  | _ => false

namespace Studio

variable {studio later last after : Studio} {number : Nat}

/-- An edit notes nothing. -/
theorem events_editPatch (studio : Studio) (number : Nat) (edit : Patch → Except PatchError Patch) :
    (studio.editPatch number edit).1.events = studio.events := by
  rcases studio.editPatch_cases number edit with ⟨hsame, -⟩ | ⟨_, _, -, -, hdone⟩
  · rw [hsame]
  · rw [hdone]
    rfl

/-- Building a box notes nothing. -/
theorem events_create (studio : Studio) (number : Nat) (detail : Dico) :
    (studio.create number detail).1.events = studio.events := by
  have hprovide : ∀ handle service, (studio.provide handle service).1.events = studio.events := by
    intro handle service
    cases service <;> rfl
  rcases studio.create_outcomes number detail with ⟨_, heq⟩ | ⟨_, _, -, heq⟩ |
    ⟨_, _, _, _, _, -, -, -, -, heq⟩
  · rw [heq]
  · rw [heq]
    rfl
  · rw [heq]
    exact hprovide _ _

/-- No task has come or gone, time stands still, and the clock is the same. -/
structure Punctual (studio later : Studio) : Prop where
  timeline : later.timeline = studio.timeline
  clock : later.clock = studio.clock

/-- An edit takes no time. -/
theorem punctual_editPatch (studio : Studio) (number : Nat) (edit : Patch → Except PatchError Patch) :
    studio.Punctual (studio.editPatch number edit).1 := by
  rcases studio.editPatch_cases number edit with ⟨hsame, -⟩ | ⟨_, _, -, -, hdone⟩
  · rw [hsame]
    exact ⟨rfl, rfl⟩
  · rw [hdone]
    exact ⟨rfl, rfl⟩

/-- Building a box takes no time. -/
theorem punctual_create (studio : Studio) (number : Nat) (detail : Dico) :
    studio.Punctual (studio.create number detail).1 := by
  have hprovide : ∀ handle service, studio.Punctual (studio.provide handle service).1 := by
    intro handle service
    cases service <;> exact ⟨rfl, rfl⟩
  rcases studio.create_outcomes number detail with ⟨_, heq⟩ | ⟨_, _, -, heq⟩ |
    ⟨_, _, _, _, _, -, -, -, -, heq⟩
  · rw [heq]
    exact ⟨rfl, rfl⟩
  · rw [heq]
    exact ⟨rfl, rfl⟩
  · rw [heq]
    exact ⟨(hprovide _ _).timeline, (hprovide _ _).clock⟩

/-- Asking for a tick notes nothing. -/
theorem events_tickAfter (studio : Studio) (handle : Handle) (clock wait : Nat) :
    (studio.tickAfter handle clock wait).1.events = studio.events := by
  unfold tickAfter
  split <;> rfl

/-- What is done at once notes nothing. -/
theorem events_of_atOnce? {handle : Handle} {effect : Effect} {outcome : Bool}
    (h : studio.atOnce? handle effect = some (after, outcome)) : after.events = studio.events := by
  cases effect with
  | send | broadcast => cases h
  | print line =>
    obtain ⟨rfl, -⟩ := Prod.mk.inj (Option.some.inj h)
    simp only [Studio.print]
  | tickAfter clock wait =>
    obtain rfl : (studio.tickAfter handle clock wait).1 = after := congrArg Prod.fst (Option.some.inj h)
    exact events_tickAfter studio handle clock wait
  | edit edit =>
    obtain rfl : (studio.applyEdit handle.patch edit).1 = after := congrArg Prod.fst (Option.some.inj h)
    cases edit with
    | create words => exact events_create studio _ _
    | remove | connect | disconnect | clear => exact events_editPatch studio _ _

/-- What listeners note is not among the events. -/
theorem events_of_hearing {atoms : List Atom} {listener : Nat} {reply? : Option Reply}
    (h : studio.hearing atoms listener = (after, reply?)) : after.events = studio.events := by
  unfold Studio.hearing at h
  split at h
  · obtain ⟨rfl, -⟩ := Prod.mk.inj h
    rfl
  · obtain ⟨rfl, -⟩ := Prod.mk.inj h
    rfl

/-- Whatever a state takes on after a reaction, nothing is noted. -/
theorem events_settleReaction (studio : Studio) (handle : Handle) (reaction : Reaction Machine) :
    (studio.settleReaction handle reaction).events = studio.events := by
  unfold Studio.settleReaction
  split <;> rfl

/-- Between two moments no box was ticked. -/
def Unticked (studio later : Studio) : Prop :=
  ∃ events, later.events = events ++ studio.events ∧ ∀ event ∈ events, event.isTick = false

namespace Unticked

theorem of_same (h : later.events = studio.events) : studio.Unticked later := ⟨[], h, nofun⟩

theorem trans (h : studio.Unticked later) (hlast : later.Unticked last) : studio.Unticked last := by
  obtain ⟨events, hevents, hfree⟩ := h
  obtain ⟨more, hmore, hmoreFree⟩ := hlast
  refine ⟨more ++ events, by rw [hmore, hevents, List.append_assoc], fun event hevent => ?_⟩
  rcases List.mem_append.mp hevent with hevent | hevent
  · exact hmoreFree event hevent
  · exact hfree event hevent

theorem note {event : Event} (h : event.isTick = false) (hevents : later.events = event :: studio.events) :
    studio.Unticked later := ⟨[event], hevents, List.forall_mem_singleton.mpr h⟩

end Unticked

/-- No message has a box ticked on its way. -/
theorem Runs.unticked {most depth : Nat} {call : Call} {outcome : Bool}
    (h : Runs most depth call studio after outcome) : studio.Unticked after := by
  induction h with
  | dropped | noTarget | nowhere | absent | reachedAll | noEffect => exact .of_same rfl
  | @taken depth handle inlet atoms studio after box reaction outcome hroom hbox hreaction heffects ih =>
    have hentered : studio.Unticked ((studio.entered handle inlet atoms).settleReaction handle reaction) :=
      .note rfl (events_settleReaction _ _ _)
    exact (hentered.trans ih).trans (.of_same rfl)
  | sent hpatch htargets ih => exact Unticked.trans (.note rfl rfl) ih
  | heard hheard => exact .of_same (events_of_hearing hheard)
  | replied hheard hreply ih => exact Unticked.trans (.of_same (events_of_hearing hheard)) ih
  | atOnce hdone => exact .of_same (events_of_atOnce? hdone)
  | present halive hrun ih | send hrun ih | broadcast hrun ih => exact ih
  | target hfirst hrest ihFirst ihRest | reached hfirst hrest ihFirst ihRest
  | effect hfirst hrest ihFirst ihRest => exact ihFirst.trans ihRest

/-- A box that is there is ticked once, and no other box with it. -/
theorem tickBox_events {handle : Handle} (h : (studio.tickBox handle).2 = true) :
    ∃ more, (studio.tickBox handle).1.events = more ++ .ticked handle :: studio.events ∧
      ∀ event ∈ more, event.isTick = false := by
  cases hopening : (Request.tick handle).opening? studio with
  | none =>
    have hnone := Option.map_eq_none_iff.mp hopening
    simp only [tickBox, hnone, Bool.false_eq_true] at h
  | some entry =>
    obtain ⟨opened, call⟩ := entry
    obtain ⟨outcome, hruns⟩ := Request.exists_run hopening
    obtain ⟨more, hmore, hfree⟩ := hruns.unticked
    obtain ⟨box, -, hopened⟩ := Option.map_eq_some_iff.mp hopening
    obtain ⟨rfl, -⟩ := Prod.mk.inj hopened
    rw [events_settleReaction] at hmore
    exact ⟨more, hmore, hfree⟩

end Studio

namespace Roster

variable {catalog : Catalog} {roster later : Roster} {birth : Birth}

/-- Births are never forgotten. -/
theorem Step.births (h : Step roster later) : roster.births <+: later.births := by
  cases h with
  | create => exact List.prefix_append _ _
  | _ => exact List.prefix_refl _

theorem Leads.births (h : roster.Leads later) : roster.births <+: later.births := by
  induction h with
  | refl => exact List.prefix_refl _
  | tail _ hstep ih => exact ih.trans hstep.births

/-- Who is not present any more does not come back. -/
theorem Step.absent (h : Step roster later) (hlater : later.Sound) (hbirth : birth ∈ roster.births)
    (habsent : birth ∉ roster.present) : birth ∉ later.present := by
  cases h with
  | create number detail hcreate hdescribe =>
    intro hmem
    rcases List.mem_append.mp hmem with hmem | hmem
    · exact habsent hmem
    -- The box that is new has a handle that no earlier one had.
    · obtain rfl := List.mem_singleton.mp hmem
      have hhandles := hlater.housed.handles
      rw [List.map_append] at hhandles
      exact (List.nodup_append.mp hhandles).2.2 _ (List.mem_map_of_mem hbirth) _
        (List.mem_singleton_self _) rfl
  | dropPatch | remove | clear => exact fun hmem => habsent (List.mem_filter.mp hmem).1
  | addPatch | refuse | rewire | name | time | aside => exact habsent

theorem Leads.absent (h : roster.Leads later) (hsound : roster.Sound) (hbirth : birth ∈ roster.births)
    (habsent : birth ∉ roster.present) : birth ∉ later.present := by
  induction h with
  | refl => exact habsent
  | tail hearlier hstep ih =>
    have hmiddle := hsound.leads hearlier
    exact hstep.absent (hmiddle.step hstep) (Leads.births hearlier |>.subset hbirth) ih

/-- A step leaves the timeline as it is, or does nothing but move it. -/
theorem Step.timeline (h : Step roster later) : later.studio.timeline = roster.studio.timeline ∨
    ∃ timeline, roster.studio.timeline.Moves timeline ∧
      later = { roster with studio := { roster.studio with timeline } } := by
  cases h with
  | addPatch | dropPatch | name => exact Or.inl rfl
  | create | refuse => exact Or.inl (roster.studio.punctual_create _ _).timeline
  | remove | clear | rewire => exact Or.inl (roster.studio.punctual_editPatch _ _).timeline
  | time hmoves => exact Or.inr ⟨_, hmoves, rfl⟩
  | aside halike => exact Or.inl halike.timeline

/-- The timeline of every studio that can be reached is in order. -/
theorem Leads.orderly (h : roster.Leads later) (horderly : roster.studio.timeline.Orderly) :
    later.studio.timeline.Orderly := by
  induction h with
  | refl => exact horderly
  | tail _ hstep ih =>
    rcases hstep.timeline with hsame | ⟨timeline, hmoves, rfl⟩
    · exact hsame ▸ ih
    · exact hmoves.orderly ih

theorem Reached.orderly (h : Reached catalog roster) : roster.studio.timeline.Orderly :=
  Leads.orderly h .empty

/-- A task waits until it is taken. -/
theorem Leads.waits (h : roster.Leads later) {entry : Timed Task}
    (hentry : entry ∈ roster.studio.timeline.queue) :
    entry ∈ later.studio.timeline.queue ∨
      ∃ moment timeline, roster.Leads moment ∧ moment.studio.timeline.next? = some (entry, timeline) ∧
        Leads { moment with studio := { moment.studio with timeline } } later := by
  induction h with
  | refl => exact Or.inl hentry
  | @tail middle last hearlier hstep ih =>
    rcases ih with hwaits | ⟨moment, timeline, hmoment, htaken, hrest⟩
    · rcases hstep.timeline with hsame | ⟨timeline, hmoves, rfl⟩
      · exact Or.inl (hsame ▸ hwaits)
      · rcases hmoves.waits hwaits with hstill | htaken
        · exact Or.inl hstill
        · exact Or.inr ⟨middle, timeline, hearlier, htaken, .refl⟩
    · exact Or.inr ⟨moment, timeline, hmoment, htaken, hrest.tail hstep⟩

end Roster

namespace Birth

variable {catalog : Catalog} {early later : Roster} {birth : Birth}

/-- The handle of a box answers for the box: it is alive, and can be sent and ticked, as long as the box
is present, which then is the one at the handle, and does nothing otherwise. -/
structure Answers (birth : Birth) (roster : Roster) : Prop where
  alive : roster.studio.isAlive birth.handle = true ↔ birth ∈ roster.present
  send : ∀ outlet atoms,
    (roster.studio.sendFrom birth.handle outlet atoms).2 = true ↔ birth ∈ roster.present
  tick : (roster.studio.tickBox birth.handle).2 = true ↔ birth ∈ roster.present
  there : birth ∈ roster.present → ∃ patch box, roster.studio.patch? birth.patch = some patch ∧
    patch.box? birth.site.id = some box ∧ box.name = birth.site.name ∧ box.text = birth.text
  silent : birth ∉ roster.present →
    (∀ outlet atoms, roster.studio.sendFrom birth.handle outlet atoms = (roster.studio, false)) ∧
      roster.studio.tickBox birth.handle = (roster.studio, false)

/-- What comes of a tick of the box when it is taken from the timeline: the box that was built is
ticked, once and no other with it, or nothing is done but that the tick is taken. -/
structure Expires (birth : Birth) (roster : Roster) (entry : Timed Task) (timeline : Timeline Task) :
    Prop where
  present : birth ∈ roster.present →
    roster.studio.runNext =
      ((({ roster.studio with timeline } : Studio).tickBox birth.handle).1, some entry) ∧
    ∃ more, roster.studio.runNext.1.events = more ++ .ticked birth.handle :: roster.studio.events ∧
      ∀ event ∈ more, event.isTick = false
  absent : birth ∉ roster.present →
    roster.studio.runNext = ({ roster.studio with timeline }, some entry)

/-- The box at the handle of a birth is the one that was built. -/
theorem exists_box (h : later.Sound) (hpresent : birth ∈ later.present) : ∃ patch box,
    later.studio.patch? birth.patch = some patch ∧ patch.box? birth.site.id = some box ∧
      birth.Stands later.studio.catalog later.studio.registry box.post := by
  have hbirth := h.present.subset hpresent
  obtain ⟨patch, hpatch, hid⟩ := Studio.isAlive_iff.mp ((h.isAlive_iff hbirth).mpr hpresent)
  obtain ⟨box, -, hbox, -⟩ := Patch.exists_box?_of_mem_ids hid
  obtain ⟨post, hpost, hstands⟩ := h.housed.stands birth hbirth patch hpatch
  have hfound : patch.post? birth.site.id = some box.post :=
    congrArg (Option.map Box.post) (Patch.boxOrRetired?_of_box? hbox)
  rw [hfound, Option.some.injEq] at hpost
  exact ⟨patch, box, hpatch, hbox, hpost ▸ hstands⟩

/-- In a sound roster a handle answers for its box. -/
theorem answers (h : later.Sound) (hbirth : birth ∈ later.births) : birth.Answers later := by
  have halive := h.isAlive_iff hbirth
  have htick : (later.studio.tickBox birth.handle).2 = true ↔
      later.studio.isAlive birth.handle = true := by
    unfold Studio.tickBox Studio.isAlive
    split
    · next hnone => simp [hnone]
    · next box hbox => simp [hbox]
  refine ⟨halive, fun outlet atoms => ?_, htick.trans halive, fun hpresent => ?_,
    fun habsent => ⟨fun outlet atoms => ?_, ?_⟩⟩
  · rw [← halive]
    unfold Studio.sendFrom
    split
    · next hyes => simp [hyes]
    · next hno => simp [hno]
  · obtain ⟨patch, box, hpatch, hbox, plan, number, -, hpost, -⟩ := exists_box h hpresent
    obtain ⟨hname, htext, -⟩ := Post.mk.inj hpost
    exact ⟨patch, box, hpatch, hbox, hname, htext⟩
  · have hgone : ¬ later.studio.isAlive birth.handle = true := mt halive.mp habsent
    simp only [Studio.sendFrom, hgone]
    rfl
  · have hgone : later.studio.isAlive birth.handle = false := by
      simpa using mt halive.mp habsent
    have hnone : ((later.studio.patch? birth.handle.patch).bind fun patch =>
        patch.box? birth.handle.box) = none := by
      simpa [Studio.isAlive] using hgone
    simp only [Studio.tickBox, hnone]

/-- When a tick of a box is taken, the box is ticked or nothing is done. -/
theorem expires (h : later.Sound) (hbirth : birth ∈ later.births) {entry : Timed Task}
    {timeline : Timeline Task} (htask : entry.task = .tick birth.handle)
    (hnext : later.studio.timeline.next? = some (entry, timeline)) :
    birth.Expires later entry timeline := by
  have hrun : later.studio.runNext =
      ((({ later.studio with timeline } : Studio).tickBox birth.handle).1, some entry) := by
    simp only [Studio.runNext, hnext, htask]
  -- The timeline has nothing to do with who is where.
  have hanswers : birth.Answers { later with studio := { later.studio with timeline } } :=
    answers (h.time timeline) hbirth
  refine ⟨fun hpresent => ?_, fun habsent => ?_⟩
  · obtain ⟨more, hmore, hfree⟩ := Studio.tickBox_events (hanswers.tick.mpr hpresent)
    refine ⟨hrun, more, ?_, hfree⟩
    rw [hrun]
    exact hmore
  · rw [hrun, (hanswers.silent habsent).2]

end Birth

namespace Roster

variable {catalog : Catalog} {early later : Roster} {birth : Birth}

/-- Whatever boxes are built, removed and cleared away in whatever patches, whatever saved patches are
read and patches dropped, and whatever messages are sent in between: no two boxes ever have one handle,
and the handle of a box answers for that box. Once it answers that the box is gone it always does. The
clock takes every tick that is asked for; the tick waits on the timeline until it is taken, and then the
box is ticked if it is present, and nothing is done otherwise. -/
theorem handles_stand_for_one_box (hearly : Reached catalog early) (hlater : early.Leads later)
    (hbirth : birth ∈ early.births) :
    birth ∈ later.births ∧ (later.births.map Birth.handle).Nodup ∧ birth.Answers later ∧
      (birth ∉ early.present → birth ∉ later.present) ∧
      (∀ wait, ∃ entry scheduled,
        early.studio.tickAfter birth.handle early.studio.clock wait = (scheduled, true) ∧
          entry.task = .tick birth.handle ∧
          entry.deadline = early.studio.timeline.now + min wait longestWait ∧
          scheduled.timeline.queue = Timeline.insert entry early.studio.timeline.queue) ∧
      (∀ entry ∈ early.studio.timeline.queue, entry ∈ later.studio.timeline.queue ∨
        ∃ moment timeline, early.Leads moment ∧
          moment.studio.timeline.next? = some (entry, timeline) ∧
          Leads { moment with studio := { moment.studio with timeline } } later) ∧
      ∀ entry timeline, entry.task = .tick birth.handle →
        later.studio.timeline.next? = some (entry, timeline) → birth.Expires later entry timeline := by
  have hsound := hearly.sound
  have hsoundLater := hsound.leads hlater
  have hbirthLater : birth ∈ later.births := hlater.births.subset hbirth
  refine ⟨hbirthLater, hsoundLater.housed.handles, Birth.answers hsoundLater hbirthLater,
    hlater.absent hsound hbirth, fun wait => ?_, fun entry hentry => hlater.waits hentry,
    fun entry timeline htask hnext => Birth.expires hsoundLater hbirthLater htask hnext⟩
  have hschedule := hearly.orderly.schedule_eq wait (Task.tick birth.handle)
  refine ⟨⟨early.studio.timeline.now + min wait longestWait, early.studio.timeline.submitted,
    .tick birth.handle⟩,
    { early.studio with
      timeline := (early.studio.timeline.schedule wait (Task.tick birth.handle)).1 }, ?_, rfl, rfl, ?_⟩
  · simp only [Studio.tickAfter, if_true, hschedule]
  · rw [hschedule]

/-- A studio with one patch, in which a metronome was built whose clock has been told to tick it. -/
def nursery : Roster :=
  let empty : Studio := ({} : Studio).addPatch.1
  let built := (empty.create 0 [("name", [.symbol "metro"])]).1
  let birth : Birth := ⟨0, "metro", [], ["name"], 0⟩
  { studio := { built with timeline := (built.timeline.schedule second (.tick birth.handle)).1 }
    births := [birth]
    present := [birth] }

/-- It can be reached. -/
theorem reached_nursery : Reached Catalog.standard nursery := by
  have hempty : Leads { studio := {} } { studio := ({} : Studio).addPatch.1 } := .single (.addPatch _)
  exact (hempty.tail (.create _ 0 [("name", [.symbol "metro"])] rfl rfl)).tail
    (.time (.schedule _ second _))

/-- When the patch has been cleared and another metronome been built in it, the tick that is due first
is that of the box that is gone, and nothing is done. -/
theorem handles_stand_for_one_box_nursery :
    ∃ later birth entry timeline, nursery.Leads later ∧ birth ∈ nursery.present ∧
      later.present.length = 1 ∧ later.studio.isAlive birth.handle = false ∧
      later.studio.timeline.next? = some (entry, timeline) ∧ entry.task = .tick birth.handle ∧
      later.studio.runNext = ({ later.studio with timeline }, some entry) := by
  let cleared := (nursery.studio.editPatch 0 fun patch => .ok patch.clear).1
  let again := (cleared.create 0 [("name", [.symbol "metro"])]).1
  let other : Birth := ⟨0, "metro", [], ["name"], 1⟩
  let later : Roster := ⟨again, nursery.births ++ [other], [other]⟩
  let birth : Birth := ⟨0, "metro", [], ["name"], 0⟩
  let entry : Timed Task := ⟨second, 0, .tick ⟨0, 0⟩⟩
  let timeline : Timeline Task := { again.timeline with now := second, queue := [] }
  have hleads : nursery.Leads later :=
    .tail (.single (.clear nursery 0)) (.create _ 0 [("name", [.symbol "metro"])] rfl rfl)
  have hbirth : birth ∈ nursery.births := List.mem_singleton_self _
  have hnext : later.studio.timeline.next? = some (entry, timeline) := rfl
  obtain ⟨-, -, hanswers, -, -, -, hexpires⟩ := handles_stand_for_one_box reached_nursery hleads hbirth
  have habsent : birth ∉ later.present := by
    intro hmem
    have hsame : birth.site.id = other.site.id :=
      congrArg (fun birth : Birth => birth.site.id) (List.mem_singleton.mp hmem)
    exact absurd hsame (by decide)
  have hgone : later.studio.isAlive birth.handle = false := by
    simpa using mt hanswers.alive.mp habsent
  exact ⟨later, birth, entry, timeline, hleads, hbirth, rfl, hgone, hnext, rfl,
    (hexpires entry timeline rfl hnext).absent habsent⟩

end Roster

end Patchbay
