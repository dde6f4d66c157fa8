import Patchbay.Proofs.Box.Clockwork
import Patchbay.Proofs.Studio.Handles

/-!
# The life of a timing box

What is found under a handle is nothing until a box is built there, and then that box for ever. If it is
a timing box, the studio seen from the handle is a clockwork: the state of the box, its attributes, and
the ticks on the timeline that are meant for it. Nothing that is done to the rest of the studio touches
it, be it done from outside or by other boxes.
-/

namespace Patchbay

/-- What has happened at a box if this is what happened in the studio. -/
def Event.at? (handle : Handle) : Event → Option Happening
  | .received other inlet atoms _ => if other = handle then some (.received inlet atoms) else none
  | .sent other outlet atoms => if other = handle then some (.sent outlet atoms) else none
  | .ticked other => if other = handle then some .ticked else none

/-- What has happened at a box, in order, told from events of which the latest comes first. -/
def happenings (handle : Handle) (events : List Event) : List Happening :=
  events.reverse.filterMap (Event.at? handle)

theorem happenings_append (handle : Handle) (later earlier : List Event) :
    happenings handle (later ++ earlier) = happenings handle earlier ++ happenings handle later := by
  simp only [happenings, List.reverse_append, List.filterMap_append]

theorem Machine.eq_timing_of_silenced {machine : Machine} {timing : Timing}
    (h : machine.silenced = .timing timing) : machine = .timing timing := by
  cases machine with
  | audio => cases h
  | control | wireless | timing | bench => exact h

namespace Clockwork

/-- The life of a box, which may begin on the way, and the diary of it. -/
inductive Tale (allowed : Sheet → Nat → Nat → Prop) (Begins : Clockwork → Prop) :
    Option Clockwork → Diary → Option Clockwork → Prop where
  | unborn : Tale allowed Begins none [] none
  | born {clockwork later : Clockwork} {diary : Diary} (hbegins : Begins clockwork)
    (htrace : Trace allowed clockwork diary later) : Tale allowed Begins none diary (some later)
  | lives {clockwork later : Clockwork} {diary : Diary} (htrace : Trace allowed clockwork diary later) :
    Tale allowed Begins (some clockwork) diary (some later)

namespace Tale

variable {allowed : Sheet → Nat → Nat → Prop} {Begins : Clockwork → Prop}
  {state later last : Option Clockwork} {first second : Diary}

theorem refl (state : Option Clockwork) : Tale allowed Begins state [] state := by
  cases state with
  | none => exact .unborn
  | some clockwork => exact .lives (.nil clockwork)

theorem trans (h : Tale allowed Begins state first later) (hlast : Tale allowed Begins later second last) :
    Tale allowed Begins state (first ++ second) last := by
  cases h with
  | unborn => exact hlast
  | born hbegins htrace =>
    cases hlast with
    | lives hmore => exact .born hbegins (htrace.append hmore)
  | lives htrace =>
    cases hlast with
    | lives hmore => exact .lives (htrace.append hmore)

/-- A box that has been built on the way began as it had to. -/
theorem exists_begun {clockwork : Clockwork} (h : Tale allowed Begins none first (some clockwork)) :
    ∃ begun, Begins begun ∧ Trace allowed begun first clockwork := by
  cases h with
  | born hbegins htrace => exact ⟨_, hbegins, htrace⟩

end Tale

/-- Nothing is asked for by no effects. -/
theorem ask_nil (now : Nat) (clockwork : Clockwork) : ask now [] clockwork = clockwork := by
  simp [ask]

theorem map_ask_nil (now : Nat) (state : Option Clockwork) : state.map (ask now []) = state := by
  cases state with
  | none => rfl
  | some clockwork => rw [Option.map_some, ask_nil]

/-- A tick that is asked for waits. -/
theorem ask_tickAfter (now clock wait : Nat) (clockwork : Clockwork) :
    ask now [.tickAfter clock wait] clockwork =
      { clockwork with ticks := (now + min wait longestWait) ::ₘ clockwork.ticks } := rfl

end Clockwork

/-- A change of one box leaves the looks of all others as they are. -/
theorem Patch.still?_updateBox_of_ne {patch : Patch} {id wanted : Nat} {change : Box → Box}
    (hchange : ∀ box, (change box).id = box.id) (hne : wanted ≠ id) :
    (patch.updateBox id change).still? wanted = patch.still? wanted := by
  rw [still?, boxOrRetired?_updateBox patch id hchange, still?]
  cases hfound : patch.boxOrRetired? wanted with
  | none => rfl
  | some box =>
    have hid : box.id = wanted := by
      rw [boxOrRetired?_eq_find?] at hfound
      simpa using List.find?_some hfound
    rw [Option.map_some, if_neg (hid ▸ hne)]

namespace Studio

variable {studio later last : Studio} {handle : Handle} {number : Nat} {patch other : Patch}

/-- The looks of the box of a handle. -/
def still? (studio : Studio) (handle : Handle) : Option Box :=
  (studio.patch? handle.patch).bind fun patch => patch.still? handle.box

/-- The deadlines of those of some tasks that are ticks for a box. -/
def deadlines (handle : Handle) (queue : List (Timed Task)) : Multiset Nat :=
  ↑((queue.filter fun entry => entry.task = .tick handle).map Timed.deadline)

theorem deadlines_cons_of_eq {handle : Handle} {entry : Timed Task} (h : entry.task = .tick handle)
    (queue : List (Timed Task)) :
    deadlines handle (entry :: queue) = entry.deadline ::ₘ deadlines handle queue := by
  simp [deadlines, h]

theorem deadlines_cons_of_ne {handle : Handle} {entry : Timed Task} (h : entry.task ≠ .tick handle)
    (queue : List (Timed Task)) : deadlines handle (entry :: queue) = deadlines handle queue := by
  simp [deadlines, h]

theorem deadlines_insert (handle : Handle) (entry : Timed Task) (queue : List (Timed Task)) :
    deadlines handle (Timeline.insert entry queue) = deadlines handle (entry :: queue) :=
  Multiset.coe_eq_coe.mpr (((Timeline.insert_perm entry queue).filter _).map _)

/-- The deadlines of the ticks that wait for a box. -/
def waiting (studio : Studio) (handle : Handle) : Multiset Nat :=
  deadlines handle studio.timeline.queue

/-- A task that is no tick for the box does not count when it is submitted. -/
theorem deadlines_schedule_of_ne {handle : Handle} {task : Task} (h : task ≠ .tick handle)
    (timeline : Timeline Task) (wait : Nat) :
    deadlines handle (timeline.schedule wait task).1.queue = deadlines handle timeline.queue := by
  unfold Timeline.schedule
  split
  · rfl
  · exact (deadlines_insert handle _ _).trans (deadlines_cons_of_ne h _)

/-- What is known of the life of a timing box at a moment: it has not been built, or it is a clockwork.
Its clock is that of the studio, which has not been shut down. -/
inductive Lives (studio : Studio) (handle : Handle) : Option Clockwork → Prop where
  | unborn (hstill : studio.still? handle = none) : Lives studio handle none
  | born {box : Box} {timing : Timing} (hstill : studio.still? handle = some box)
    (hmachine : box.machine = .timing timing) (hclock : timing.generation = studio.clock) :
    Lives studio handle (some ⟨timing, box.sheet, studio.waiting handle⟩)

/-- Another patch in a place is seen in that place only. -/
theorem still?_setPatch (hpatch : studio.patch? number = some patch) (other : Patch) (handle : Handle) :
    (studio.setPatch number other).still? handle =
      if handle.patch = number then other.still? handle.box else studio.still? handle := by
  split
  · next heq => rw [still?, heq, patch?_setPatch hpatch, Option.bind_some]
  · next hne => rw [still?, patch?_setPatch_of_ne other hne, still?]

/-- What is in the place of a patch is seen as before if it looks the same. -/
theorem still?_setPatch_of_still? (hpatch : studio.patch? number = some patch)
    (hsame : ∀ id, other.still? id = patch.still? id) (handle : Handle) :
    (studio.setPatch number other).still? handle = studio.still? handle := by
  rw [still?_setPatch hpatch]
  split
  · next heq => rw [hsame, still?, heq, hpatch, Option.bind_some]
  · rfl

/-- A tick that is asked for changes nobody's looks. -/
theorem still?_tickAfter (studio : Studio) (place : Handle) (clock wait : Nat) (handle : Handle) :
    (studio.tickAfter place clock wait).1.still? handle = studio.still? handle := by
  unfold Studio.tickAfter
  split <;> rfl

/-- Nothing has happened that has to do with a box: it looks the same, the same ticks wait for it, and
nothing has been noted of it. -/
structure Spares (handle : Handle) (studio later : Studio) : Prop where
  still? : later.still? handle = studio.still? handle
  waiting : later.waiting handle = studio.waiting handle
  clock : later.clock = studio.clock
  events : ∃ events, later.events = events ++ studio.events ∧ happenings handle events = []

namespace Spares

theorem of_punctual (hpunctual : studio.Punctual later) (hstill : later.still? handle = studio.still? handle)
    (hevents : later.events = studio.events) : Spares handle studio later :=
  ⟨hstill, by rw [Studio.waiting, hpunctual.timeline, Studio.waiting], hpunctual.clock, [], hevents, rfl⟩

/-- Whatever does not concern the patches concerns no box. -/
theorem of_patches (hpunctual : studio.Punctual later) (hpatches : later.patches = studio.patches)
    (hevents : later.events = studio.events) : Spares handle studio later := by
  refine .of_punctual hpunctual ?_ hevents
  rw [Studio.still?, patch?, hpatches, Studio.still?, patch?]

theorem refl (handle : Handle) (studio : Studio) : Spares handle studio studio :=
  .of_patches ⟨rfl, rfl⟩ rfl rfl

theorem trans (h : Spares handle studio later) (hlast : Spares handle later last) :
    Spares handle studio last := by
  obtain ⟨events, hevents, hnone⟩ := h.events
  obtain ⟨more, hmore, hmoreNone⟩ := hlast.events
  refine ⟨hlast.still?.trans h.still?, hlast.waiting.trans h.waiting, hlast.clock.trans h.clock,
    more ++ events, by rw [hmore, hevents, List.append_assoc], ?_⟩
  rw [happenings_append, hnone, hmoreNone]
  rfl

/-- Noting what happened elsewhere concerns no box. -/
theorem note (studio : Studio) {event : Event} (hevent : event.at? handle = none) :
    Spares handle studio { studio with events := event :: studio.events } := by
  refine ⟨rfl, rfl, rfl, [event], rfl, ?_⟩
  simp [happenings, hevent]

/-- A delivery to one box concerns no other. -/
theorem entered {place : Handle} (hother : place ≠ handle) (studio : Studio) (inlet : Nat)
    (atoms : List Atom) : Spares handle studio (studio.entered place inlet atoms) := by
  refine ⟨rfl, rfl, rfl, [.received place inlet atoms (studio.nesting + 1)], rfl, ?_⟩
  simp [happenings, Event.at?, hother]

/-- A delivery that is over concerns no box. -/
theorem left (handle : Handle) (studio : Studio) : Spares handle studio studio.left :=
  .of_patches ⟨rfl, rfl⟩ rfl rfl

/-- Printing concerns no box. -/
theorem print (handle : Handle) (studio : Studio) (line : String) :
    Spares handle studio (studio.print line) := by
  refine .of_patches ⟨?_, ?_⟩ ?_ ?_ <;> simp only [Studio.print]

/-- Listening concerns no box. -/
theorem hearing {atoms : List Atom} {listener : Nat} {reply? : Option Reply}
    (hheard : studio.hearing atoms listener = (later, reply?)) : Spares handle studio later := by
  unfold Studio.hearing at hheard
  split at hheard
  · obtain ⟨rfl, -⟩ := Prod.mk.inj hheard
    exact .refl handle studio
  · obtain ⟨rfl, -⟩ := Prod.mk.inj hheard
    exact .of_patches ⟨rfl, rfl⟩ rfl rfl

/-- An edit concerns no box if it leaves the looks of all as they are. -/
theorem editPatch {edit : Patch → Except PatchError Patch}
    (hedit : ∀ patch later, studio.patch? number = some patch → edit patch = .ok later →
      ∀ id, later.still? id = patch.still? id) (handle : Handle) :
    Spares handle studio (studio.editPatch number edit).1 := by
  refine .of_punctual (punctual_editPatch _ _ _) ?_ (events_editPatch _ _ _)
  rcases studio.editPatch_cases number edit with ⟨hsame, -⟩ | ⟨patch, later, hpatch, hlater, hdone⟩
  · rw [hsame]
  · rw [hdone]
    exact still?_setPatch_of_still? hpatch (hedit patch later hpatch hlater) handle

/-- So does a change that comes from outside. -/
theorem adjust {change : Patch → Patch}
    (hchange : ∀ patch, studio.patch? number = some patch → patch.SameStills (change patch))
    (handle : Handle) : Spares handle studio (studio.adjust number change) := by
  unfold Studio.adjust
  split
  · exact .refl handle studio
  · next patch hpatch =>
    exact .of_punctual ⟨rfl, rfl⟩ (still?_setPatch_of_still? hpatch (hchange patch hpatch).still? handle) rfl

/-- A new patch concerns no box. -/
theorem addPatch (hrecent : ∀ number ∈ studio.numbers, number < studio.nextPatch) (handle : Handle) :
    Spares handle studio studio.addPatch.1 := by
  refine .of_punctual ⟨rfl, rfl⟩ ?_ rfl
  rw [Studio.still?, patch?_addPatch hrecent, Studio.still?]
  split
  · next heq =>
    have hnone : studio.patch? studio.nextPatch = none :=
      patch?_eq_none fun hmem => (hrecent _ hmem).ne rfl
    rw [heq, hnone]
    rfl
  · rfl

/-- A patch that is dropped concerns no box in another. -/
theorem dropPatch (hother : handle.patch ≠ number) : Spares handle studio (studio.dropPatch number) := by
  refine .of_punctual ⟨rfl, rfl⟩ ?_ rfl
  rw [Studio.still?, patch?_dropPatch, if_neg hother, Studio.still?]

/-- The reaction of a box concerns no other. -/
theorem settleReaction {place : Handle} (hother : place ≠ handle) (reaction : Reaction Machine) :
    Spares handle studio (studio.settleReaction place reaction) := by
  refine .of_punctual ⟨?_, ?_⟩ ?_ (events_settleReaction _ _ _)
  · unfold Studio.settleReaction
    split <;> rfl
  · unfold Studio.settleReaction
    split <;> rfl
  unfold Studio.settleReaction
  split
  · rfl
  next patch hpatch =>
  rw [still?_setPatch hpatch]
  split
  · next heq =>
    have hne : handle.box ≠ place.box := by
      intro hbox
      obtain ⟨_, _⟩ := place
      obtain ⟨_, _⟩ := handle
      exact hother (Handle.mk.injEq _ _ _ _ ▸ ⟨heq.symm, hbox.symm⟩)
    refine (Patch.still?_updateBox_of_ne ?_ hne).trans ?_
    · exact fun _ => rfl
    · rw [Studio.still?, heq, hpatch, Option.bind_some]
  · rfl

/-- A tick that is asked for another box concerns no box but that. -/
theorem tickAfter {place : Handle} (hother : place ≠ handle) (studio : Studio) (clock wait : Nat) :
    Spares handle studio (studio.tickAfter place clock wait).1 := by
  unfold Studio.tickAfter
  split
  · refine ⟨rfl, deadlines_schedule_of_ne ?_ _ _, rfl, [], rfl, rfl⟩
    exact fun heq => hother (Task.tick.inj heq)
  · exact .refl handle studio

/-- The passing of time concerns no box. -/
theorem lag (handle : Handle) (studio : Studio) (wait : Nat) :
    Spares handle studio { studio with timeline.now := studio.timeline.now + wait } :=
  ⟨rfl, rfl, rfl, [], rfl, rfl⟩

/-- A mark on the timeline concerns no box. -/
theorem mark (handle : Handle) (studio : Studio) (wait : Nat) :
    Spares handle studio { studio with timeline := (studio.timeline.schedule wait .mark).1 } :=
  have hother : Task.mark ≠ .tick handle := nofun
  ⟨rfl, deadlines_schedule_of_ne hother _ _, rfl, [], rfl, rfl⟩

/-- A task that is no tick for the box may be taken. -/
theorem taken {entry : Timed Task} {timeline : Timeline Task}
    (hnext : studio.timeline.next? = some (entry, timeline)) (hother : entry.task ≠ .tick handle) :
    Spares handle studio { studio with timeline } := by
  obtain ⟨hqueue, -⟩ := Timeline.next?_eq_some hnext
  refine ⟨rfl, ?_, rfl, [], rfl, rfl⟩
  rw [Studio.waiting, Studio.waiting, hqueue, deadlines_cons_of_ne hother]

end Spares

namespace Lives

variable {state : Option Clockwork} {clockwork : Clockwork}

/-- A box lives on as it is if the studio seen from its handle is the same. -/
theorem of_same (h : studio.Lives handle state) (hstill : later.still? handle = studio.still? handle)
    (hwaiting : later.waiting handle = studio.waiting handle) (hclock : later.clock = studio.clock) :
    later.Lives handle state := by
  cases h with
  | unborn hnone => exact .unborn (hstill.trans hnone)
  | @born box timing hbox hmachine hgeneration =>
    rw [← hwaiting]
    exact .born (hstill.trans hbox) hmachine (hgeneration.trans hclock.symm)

theorem spares (h : studio.Lives handle state) (hspares : Spares handle studio later) :
    later.Lives handle state :=
  h.of_same hspares.still? hspares.waiting hspares.clock

/-- What is found under the handle of a timing box. -/
theorem exists_box (h : studio.Lives handle (some clockwork)) : ∃ patch box,
    studio.patch? handle.patch = some patch ∧ patch.boxOrRetired? handle.box = some box ∧
      box.machine = .timing clockwork.timing ∧ box.sheet = clockwork.sheet ∧
      clockwork.ticks = studio.waiting handle ∧ clockwork.timing.generation = studio.clock := by
  cases h with
  | @born look timing hstill hmachine hclock =>
    obtain ⟨patch, hpatch, hlook⟩ := Option.bind_eq_some_iff.mp hstill
    obtain ⟨box, hbox, rfl⟩ := Option.map_eq_some_iff.mp hlook
    exact ⟨patch, box, hpatch, hbox, Machine.eq_timing_of_silenced hmachine, rfl, rfl, hclock⟩

/-- The box that is found under the handle is the timing box. -/
theorem eq_box (h : studio.Lives handle (some clockwork)) {patch : Patch} {box : Box}
    (hpatch : studio.patch? handle.patch = some patch)
    (hbox : patch.boxOrRetired? handle.box = some box) :
    box.machine = .timing clockwork.timing ∧ box.sheet = clockwork.sheet := by
  obtain ⟨_, found, hplace, hfound, hmachine, hsheet, -, -⟩ := h.exists_box
  obtain rfl := Option.some.inj (hpatch.symm.trans hplace)
  obtain rfl := Option.some.inj (hbox.symm.trans hfound)
  exact ⟨hmachine, hsheet⟩

theorem clock (h : studio.Lives handle (some clockwork)) :
    clockwork.timing.generation = studio.clock := by
  cases h with
  | born _ _ hclock => exact hclock

/-- Who is found under a handle has been built. -/
theorem ne_none (h : studio.Lives handle state) {patch : Patch} {box : Box}
    (hpatch : studio.patch? handle.patch = some patch)
    (hbox : patch.boxOrRetired? handle.box = some box) : state ≠ none := by
  cases h with
  | unborn hnone =>
    rw [still?, hpatch, Option.bind_some, Patch.still?, hbox] at hnone
    cases hnone
  | born => exact Option.some_ne_none _

/-- A timing box that reacts is as the reaction leaves it. -/
theorem settle (h : studio.Lives handle (some clockwork)) {reaction : Reaction Timing}
    (hsound : clockwork.timing.Sound reaction) :
    (studio.settleReaction handle (reaction.map .timing)).Lives handle
      (some { clockwork with timing := reaction.state, sheet := reaction.sheet }) := by
  obtain ⟨patch, box, hpatch, hbox, -, -, hticks, hclock⟩ := h.exists_box
  have hid : box.id = handle.box := by
    rw [Patch.boxOrRetired?_eq_find?] at hbox
    simpa using List.find?_some hbox
  let settled : Box := { box with machine := .timing reaction.state, sheet := reaction.sheet }
  have hstill : (studio.settleReaction handle (reaction.map .timing)).still? handle = some settled.still := by
    simp only [settleReaction, hpatch]
    rw [still?_setPatch hpatch, if_pos rfl, Patch.still?]
    refine (congrArg (Option.map Box.still) (Patch.boxOrRetired?_updateBox _ _ ?_ _)).trans ?_
    · exact fun _ => rfl
    · rw [hbox, Option.map_some, if_pos hid]
      rfl
  have hpunctual : studio.Punctual (studio.settleReaction handle (reaction.map .timing)) := by
    simp only [settleReaction, hpatch]
    exact ⟨rfl, rfl⟩
  have hwaiting : (studio.settleReaction handle (reaction.map .timing)).waiting handle =
      clockwork.ticks := by
    rw [hticks, Studio.waiting, hpunctual.timeline, Studio.waiting]
  rw [← hwaiting]
  exact .born hstill rfl (hsound.generation.trans (hclock.trans hpunctual.clock.symm))

/-- A tick that is asked for a box waits for it. -/
theorem tickAfter (h : studio.Lives handle (some clockwork)) (horderly : studio.timeline.Orderly)
    (wait : Nat) :
    (studio.tickAfter handle studio.clock wait).1.Lives handle
      (some (clockwork.ask studio.timeline.now [.tickAfter studio.clock wait])) := by
  cases h with
  | @born box timing hstill hmachine hclock =>
    have hafter : (studio.tickAfter handle studio.clock wait).1 =
        { studio with timeline := (studio.timeline.schedule wait (.tick handle)).1 } := by
      simp only [Studio.tickAfter, if_true]
    have hwaiting : (studio.tickAfter handle studio.clock wait).1.waiting handle =
        (studio.timeline.now + min wait longestWait) ::ₘ studio.waiting handle := by
      rw [hafter, Studio.waiting, horderly.schedule_eq, deadlines_insert]
      exact deadlines_cons_of_eq rfl _
    rw [Clockwork.ask]
    have hasked : (↑([Effect.tickAfter studio.clock wait].filterMap
        (Effect.deadline? studio.timeline.now)) : Multiset Nat) + studio.waiting handle =
          (studio.tickAfter handle studio.clock wait).1.waiting handle := by
      rw [hwaiting]
      rfl
    rw [hasked]
    refine .born ?_ hmachine ?_
    · rw [hafter]
      exact hstill
    · rw [hafter]
      exact hclock

/-- When a tick of the box is taken, it is the one that is due first of those that wait for it. -/
theorem taken (h : studio.Lives handle (some clockwork)) (horderly : studio.timeline.Orderly)
    {entry : Timed Task} {timeline : Timeline Task}
    (hnext : studio.timeline.next? = some (entry, timeline)) (htask : entry.task = .tick handle) :
    ∃ rest, clockwork.ticks = entry.deadline ::ₘ rest ∧ (∀ other ∈ rest, entry.deadline ≤ other) ∧
      ({ studio with timeline } : Studio).Lives handle (some { clockwork with ticks := rest }) := by
  obtain ⟨hqueue, -⟩ := Timeline.next?_eq_some hnext
  cases h with
  | @born box timing hstill hmachine hclock =>
    refine ⟨deadlines handle timeline.queue, ?_, fun other hother => ?_, .born hstill hmachine hclock⟩
    · show deadlines handle studio.timeline.queue = _
      rw [hqueue, deadlines_cons_of_eq htask]
    · obtain ⟨task, htask, rfl⟩ := List.mem_map.mp (Multiset.mem_coe.mp hother)
      have hsorted := horderly.sorted
      rw [hqueue] at hsorted
      exact (List.pairwise_cons.mp hsorted).1 task (List.mem_filter.mp htask).1

end Lives

end Studio

end Patchbay
