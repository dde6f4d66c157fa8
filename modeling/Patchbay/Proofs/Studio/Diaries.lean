import Patchbay.Proofs.Studio.Tales

/-!
# The diary of a box

What happens at a box while turns are taken in its studio, each thing with its time. If the box is a
timing box, and it is left to the box what it sends and to the clock when it is ticked, the diary is that
of a clockwork which began as such a box begins, whatever else goes on in the studio.
-/

namespace Patchbay

namespace Studio

variable {allowed : Sheet → Nat → Nat → Prop} {studio later : Studio} {handle : Handle}

/-- Decide whether a request leaves it to a box what it sends, and to its clock when it is ticked. -/
def Request.leaves (handle : Handle) : Request → Bool
  | .sendFrom other _ _ | .tick other => other != handle
  | _ => true

/-- Decide whether a turn leaves it to a box what it sends, and to its clock when it is ticked. -/
def Turn.leaves (handle : Handle) : Turn → Bool
  | .move (.request request) => request.leaves handle
  | _ => true

/-- The time at which a turn is taken. A task is run at its deadline, or later if time has passed. -/
def Turn.moment (studio : Studio) : Turn → Nat
  | .next => (studio.timeline.next?.map fun taken => taken.2.now).getD studio.timeline.now
  | _ => studio.timeline.now

/-- What has been noted between two moments, the latest first. -/
def eventsSince (studio later : Studio) : List Event :=
  later.events.take (later.events.length - studio.events.length)

theorem eventsSince_eq {events : List Event} (h : later.events = events ++ studio.events) :
    studio.eventsSince later = events := by
  simp [eventsSince, h]

/-- The diary of a box while turns are taken. -/
def diary (handle : Handle) : Studio → List Turn → Diary
  | _, [] => []
  | studio, turn :: rest =>
    (happenings handle (studio.eventsSince (studio.turn turn))).map (Prod.mk (turn.moment studio)) ++
      diary handle (studio.turn turn) rest

/-- If a turn takes a tick of a box that is in its patch, the tick may be taken then. -/
def Prompt (allowed : Sheet → Nat → Nat → Prop) (handle : Handle) (studio : Studio) : Turn → Prop
  | .next => ∀ taken ∈ studio.timeline.next?, taken.1.task = .tick handle →
      ∀ box ∈ (studio.patch? handle.patch).bind fun patch => patch.box? handle.box,
        allowed box.sheet taken.1.deadline taken.2.now
  | _ => True

/-- Every tick of a box is taken when it may be. -/
def OnTime (allowed : Sheet → Nat → Nat → Prop) (handle : Handle) : Studio → List Turn → Prop
  | _, [] => True
  | studio, turn :: rest =>
    studio.Prompt allowed handle turn ∧ OnTime allowed handle (studio.turn turn) rest

/-- If ticks may be taken at any time, they are taken when they may be. -/
theorem onTime_of_forall (h : ∀ sheet deadline now, allowed sheet deadline now) (studio : Studio)
    (turns : List Turn) : studio.OnTime allowed handle turns := by
  induction turns generalizing studio with
  | nil => trivial
  | cons turn rest ih =>
    refine ⟨?_, ih _⟩
    cases turn with
    | next => exact fun _ _ _ _ _ => h _ _ _
    | _ => trivial

end Studio

open Studio

namespace Roster

variable {allowed : Sheet → Nat → Nat → Prop} {catalog : Catalog} {target : Handle} {birth : Birth}
  {time number : Nat} {roster : Roster}

/-- If a box is found under the handle, it is the one that was born so. -/
theorem Owns.mem_births (h : roster.Owns catalog target birth) (hsound : roster.Sound) {look : Box}
    (hlook : roster.studio.still? target = some look) : birth ∈ roster.births := by
  obtain ⟨patch, hpatch, hfound⟩ := Option.bind_eq_some_iff.mp hlook
  have hpost : patch.post? target.box = some look.post := by
    rw [Patch.post?_eq_still?, hfound, Option.map_some]
  obtain ⟨other, hother, hhandle⟩ := hsound.housed.born _ patch _ _ hpatch hpost
  exact h.only other hother hhandle ▸ hother

/-- A box that is found under the handle is in its patch. -/
theorem Owns.isAlive (h : roster.Owns catalog target birth) (hsound : roster.Sound) {look : Box}
    (hlook : roster.studio.still? target = some look) : roster.studio.isAlive target = true :=
  have hbirth := h.mem_births hsound hlook
  h.handle ▸ (hsound.isAlive_iff hbirth).mpr (h.stays hbirth)

/-- What is done to a patch from outside is told, if all boxes look the same. -/
theorem tells_adjust (number : Nat) {change : Patch → Patch}
    (hchange : ∀ patch, roster.studio.patch? number = some patch → patch.SameStills (change patch)) :
    roster.Tells allowed catalog target time [] (roster.studio.adjust number change) :=
  .of_spares (.aside (.adjust _ number hchange)) (.adjust hchange _)

/-- Reading a saved patch is told. -/
theorem Reached.tells_readPatch (hreached : Reached catalog roster) (number : Nat) (saved : Dico) :
    roster.Tells allowed catalog target time [] (roster.studio.readPatch number saved).1 := by
  have hedit : ∀ (edit : Edit) {studio : Studio}, roster.Tells allowed catalog target time [] studio →
      roster.Tells allowed catalog target time [] (studio.applyEdit number edit).1 := by
    intro edit studio h
    refine h.trans hreached.sound fun later hleads hlater => ?_
    have hlaterReached : Reached catalog later := hreached.trans hleads
    exact hlater ▸ tells_applyEdit hlaterReached.sound hlaterReached.catalog number edit
  refine readPatch_induction (P := roster.Tells allowed catalog target time []) ?clear ?create ?connect
    saved (.refl roster)
  case clear => exact fun _ h => hedit .clear h
  case create =>
    intro studio detail h
    refine h.trans hreached.sound fun later hleads hlater => ?_
    have hlaterReached : Reached catalog later := hreached.trans hleads
    exact hlater ▸ tells_create hlaterReached.sound hlaterReached.catalog number detail
  case connect =>
    exact fun _ source outlet target inlet h => hedit (.connect source outlet target inlet) h

/-- Operations are told. -/
theorem Reached.tells_operate (hreached : Reached catalog roster) (number : Nat) (operation : Operation) :
    roster.Tells allowed catalog target time [] (roster.studio.operate number operation) := by
  have hsound := hreached.sound
  have hnodup : ∀ patch, roster.studio.patch? number = some patch → patch.ids.Nodup :=
    fun patch hpatch => (hsound.housed.tagged number patch hpatch).nodup_ids
  have hedit : ∀ edit,
      roster.Tells allowed catalog target time [] (roster.studio.applyEdit number edit).1 :=
    tells_applyEdit hsound hreached.catalog number
  cases operation with
  | create detail => exact tells_create hsound hreached.catalog number detail
  | createFromText text => exact tells_create hsound hreached.catalog number _
  | remove id => exact hedit (.remove id)
  | clear => exact hedit .clear
  | connect source outlet target inlet => exact hedit (.connect source outlet target inlet)
  | disconnect source outlet target inlet => exact hedit (.disconnect source outlet target inlet)
  | read saved => exact hreached.tells_readPatch number saved
  | setChannels inputs outputs => exact tells_adjust number fun _ _ => ⟨rfl, rfl, rfl⟩
  | start sampleRate blockSize =>
    exact tells_adjust number fun patch _ => patch.sameStills_start sampleRate blockSize
  | stop => exact tells_adjust number fun patch _ => patch.sameStills_stop
  | tick => exact tells_adjust number fun patch hpatch => Patch.sameStills_tick (hnodup patch hpatch)
  | process inputs sizes =>
    exact tells_adjust number fun patch hpatch =>
      Patch.sameStills_process (hnodup patch hpatch) inputs sizes

/-- Requests are told, if they leave it to the box what it sends and to its clock when it is ticked. -/
theorem Reached.tells_perform (hreached : Reached catalog roster)
    (hnow : roster.studio.timeline.now = time) {request : Request} (hleaves : request.leaves target = true) :
    roster.Tells allowed catalog target time [] (request.perform roster.studio) := by
  cases hopening : request.opening? roster.studio with
  | none =>
    rw [Request.perform_of_none hopening]
    exact .refl roster
  | some entry =>
    obtain ⟨opened, call⟩ := entry
    obtain ⟨outcome, hruns⟩ := Request.exists_run hopening
    cases request with
    | send handle inlet atoms =>
      simp only [Request.opening?] at hopening
      split at hopening
      · obtain ⟨rfl, rfl⟩ := Prod.mk.inj (Option.some.inj hopening)
        exact reports_run hruns roster hreached rfl hnow trivial
      · cases hopening
    | sendFrom handle outlet atoms =>
      simp only [Request.opening?] at hopening
      split at hopening
      · obtain ⟨rfl, rfl⟩ := Prod.mk.inj (Option.some.inj hopening)
        have hasked : (Call.sendOut handle outlet atoms).asked target = [] :=
          if_neg (bne_iff_ne.mp hleaves)
        exact hasked ▸ reports_run hruns roster hreached rfl hnow trivial
      · cases hopening
    | tick handle =>
      have hother : handle ≠ target := bne_iff_ne.mp hleaves
      obtain ⟨box, hbox, hopened⟩ := Option.map_eq_some_iff.mp hopening
      obtain ⟨rfl, rfl⟩ := Prod.mk.inj hopened
      obtain ⟨patch, hpatch, hfound⟩ := Option.bind_eq_some_iff.mp hbox
      let here := roster.studio.surroundings handle box.sheet
      have halike := Alike.tick hpatch hfound here
      have hevent : (Event.ticked handle).at? target = none := if_neg hother
      have hspares : Spares target roster.studio _ :=
        (Spares.note _ hevent).trans (.settleReaction hother (box.machine.tick here))
      have hasked : (Call.carryOut handle (box.machine.tick here).effects).asked target = [] :=
        if_neg hother
      refine Tells.trans (.of_spares (.aside halike) hspares) hreached.sound fun later hleads hlater => ?_
      exact hasked ▸ reports_run hruns later (hreached.trans hleads) hlater
        ((SameTime.of_alike halike).now.trans hnow) fun hsame => absurd hsame hother
    | broadcast name atoms =>
      obtain ⟨rfl, rfl⟩ := Prod.mk.inj (Option.some.inj hopening)
      refine Tells.trans (.step (.name roster name) (.of_patches ⟨rfl, rfl⟩ rfl rfl)) hreached.sound
        fun later hleads hlater => ?_
      have hlaterReached : Reached catalog later := hreached.trans hleads
      refine hlaterReached.tells_of_unbound (roster.studio.registry.create name).2
        (becomes_run hruns later hlater) fun hbound => ?_
      rw [hlater] at hbound
      exact reports_run hruns later hlaterReached hlater hnow hbound

/-- A patch that is dropped is told. -/
theorem Reached.tells_dropPatch (hreached : Reached catalog roster) (number : Nat) :
    roster.Tells allowed catalog target time [] (roster.studio.dropPatch number) := by
  have hstep := Step.dropPatch roster number
  by_cases hplace : target.patch = number
  · refine ⟨_, .single hstep, rfl, fun birth howns state hlives _ => ?_⟩
    obtain rfl := howns.handle
    cases hlives with
    | unborn =>
      refine ⟨none, [], [], .unborn ?_, rfl, rfl, .unborn⟩
      rw [Studio.still?, Studio.patch?_dropPatch, if_pos hplace]
      rfl
    -- The box would not be present any more.
    | born hlook =>
      have hbirth := (howns.earlier hreached.sound (.single hstep)).mem_births hreached.sound hlook
      have hkept := (List.mem_filter.mp (howns.stays hbirth)).2
      exact absurd hplace (bne_iff_ne.mp hkept)
  · exact .step hstep (.dropPatch hplace)

/-- That the clock of a box is told to tick it is told. -/
theorem Reached.tells_clock (hreached : Reached catalog roster) (handle : Handle) (wait : Nat) :
    roster.Tells allowed catalog target time []
      (roster.studio.tickAfter handle roster.studio.clock wait).1 := by
  have hbecomes := becomes_tickAfter roster handle roster.studio.clock wait
  by_cases hplace : handle = target
  · obtain ⟨later, hleads, hlater⟩ := hbecomes
    refine ⟨later, hleads, hlater, fun birth howns state hlives _ => ?_⟩
    obtain rfl := hplace
    obtain rfl := howns.handle
    have hnoted := events_tickAfter roster.studio birth.handle roster.studio.clock wait
    cases state with
    | none =>
      cases hlives with
      | unborn hnone =>
        refine ⟨none, [], [], .unborn ?_, hnoted, rfl, .unborn⟩
        rw [still?_tickAfter, hnone]
    | some clockwork =>
      rw [Clockwork.map_ask_nil]
      refine ⟨_, [], [], hlives.tickAfter hreached.orderly wait, hnoted, rfl, ?_⟩
      rw [Clockwork.ask_tickAfter]
      exact .lives (.single (.asked clockwork _))
  · exact .of_spares hbecomes (.tickAfter hplace _ _ wait)

/-- A tick of the box that is taken is told, if it may be taken then. -/
theorem Reached.tells_tick (hreached : Reached catalog roster) {entry : Timed Task}
    {timeline : Timeline Task} (hnext : roster.studio.timeline.next? = some (entry, timeline))
    (htask : entry.task = .tick target)
    (hallowed : ∀ box ∈ (roster.studio.patch? target.patch).bind fun patch => patch.box? target.box,
      allowed box.sheet entry.deadline timeline.now) :
    roster.Tells allowed catalog target timeline.now []
      ((Request.tick target).perform { roster.studio with timeline }) := by
  let advanced : Roster := { roster with studio := { roster.studio with timeline } }
  have htaken : Step roster advanced := .time (.next hnext)
  cases hopening : (Request.tick target).opening? advanced.studio with
  | none =>
    rw [Request.perform_of_none hopening]
    have hnobody := Option.map_eq_none_iff.mp hopening
    refine ⟨advanced, .single htaken, rfl, fun birth howns state hlives _ => ?_⟩
    obtain rfl := howns.handle
    cases hlives with
    | unborn hnone => exact ⟨none, [], [], .unborn hnone, rfl, rfl, .unborn⟩
    | born hlook =>
      have halive := howns.isAlive (hreached.sound.step htaken) hlook
      rw [Studio.isAlive, hnobody] at halive
      cases halive
  | some opened =>
    obtain ⟨ticked, call⟩ := opened
    obtain ⟨outcome, hruns⟩ := Request.exists_run hopening
    obtain ⟨box, hbox, hopened⟩ := Option.map_eq_some_iff.mp hopening
    obtain ⟨rfl, rfl⟩ := Prod.mk.inj hopened
    obtain ⟨patch, hpatch, hfound⟩ := Option.bind_eq_some_iff.mp hbox
    let reaction := box.machine.tick (advanced.studio.surroundings target box.sheet)
    have halike : advanced.studio.Alike _ :=
      .tick hpatch hfound (advanced.studio.surroundings target box.sheet)
    let settled : Roster := { advanced with
      studio := ({ advanced.studio with events := .ticked target :: advanced.studio.events } :
        Studio).settleReaction target reaction }
    have hleads : roster.Leads settled := .tail (.single htaken) (.aside halike)
    have hsame := SameTime.of_alike halike
    have hasked : (Call.carryOut target reaction.effects).asked target = reaction.effects := if_pos rfl
    have htells : Timing.Asks settled.studio.clock reaction.effects →
        settled.Tells allowed catalog target timeline.now reaction.effects _ := fun hasks =>
      hasked ▸ reports_run hruns settled (hreached.trans hleads) rfl hsame.now fun _ => hasks
    obtain ⟨later, hlater, hdone, htold⟩ := Tells.of_imp (becomes_run hruns settled rfl) htells
    refine ⟨later, hleads.trans hlater, hdone, fun birth howns => ?_⟩
    obtain rfl := howns.handle
    refine .tick hnext hreached.orderly htask hpatch hfound (hallowed box hbox) rfl fun hasks => ?_
    exact htold birth howns (hsame.clock.symm ▸ hasks)

/-- Running the task that is due first is told, if a tick of the box may be taken then. -/
theorem Reached.tells_next (hreached : Reached catalog roster)
    (hprompt : roster.studio.Prompt allowed target .next) :
    roster.Tells allowed catalog target (Turn.next.moment roster.studio) [] roster.studio.runNext.1 := by
  unfold runNext
  split
  · exact .refl roster
  next entry timeline hnext =>
  have hmoment : Turn.next.moment roster.studio = timeline.now := by
    simp only [Turn.moment, hnext, Option.map_some, Option.getD_some]
  have htaken : Step roster { roster with studio := { roster.studio with timeline } } :=
    .time (.next hnext)
  rw [hmoment]
  dsimp only
  split
  · next handle htask =>
    by_cases hplace : handle = target
    · subst hplace
      exact hreached.tells_tick hnext htask (hprompt _ hnext htask)
    · have hother : entry.task ≠ .tick target := by
        rw [htask]
        exact fun heq => hplace (Task.tick.inj heq)
      refine Tells.trans (.step htaken (.taken hnext hother)) hreached.sound fun later hleads hlater => ?_
      have hticked : later.Tells allowed catalog target timeline.now []
          ((Request.tick handle).perform later.studio) :=
        Reached.tells_perform (hreached.trans hleads) (by rw [hlater]) (bne_iff_ne.mpr hplace)
      rw [hlater] at hticked
      exact hticked
  · next htask =>
    have hother : entry.task ≠ .tick target := by
      rw [htask]
      nofun
    exact .step htaken (.taken hnext hother)

/-- Every turn is told that leaves it to the box what it sends and to its clock when it is ticked, and
that takes no tick of it when it may not be taken. -/
theorem Reached.tells_turn (hreached : Reached catalog roster) {turn : Turn}
    (hleaves : turn.leaves target = true) (hprompt : roster.studio.Prompt allowed target turn) :
    roster.Tells allowed catalog target (turn.moment roster.studio) [] (roster.studio.turn turn) := by
  cases turn with
  | addPatch =>
    exact .step (.addPatch roster) (.addPatch hreached.sound.housed.recent _)
  | dropPatch number => exact hreached.tells_dropPatch number
  | move move =>
    cases move with
    | operate number operation => exact hreached.tells_operate number operation
    | request request => exact hreached.tells_perform rfl hleaves
  | limit number limit => exact tells_adjust number fun _ _ => ⟨rfl, rfl, rfl⟩
  | clock handle wait => exact hreached.tells_clock handle wait
  | mark wait => exact .step (.time (.schedule _ wait _)) (.mark _ _ wait)
  | lag wait => exact .step (.time (.lag _ wait)) (.lag _ _ wait)
  | next => exact hreached.tells_next hprompt

/-- While turns are taken a timing box has the life that its diary tells, if it is there in the end. -/
theorem Reached.exists_tale (hreached : Reached catalog roster) {turns : List Turn}
    (hleaves : ∀ turn ∈ turns, turn.leaves target = true)
    (htime : roster.studio.OnTime allowed target turns) :
    ∃ later, roster.Leads later ∧ later.studio = roster.studio.turnAll turns ∧
      ∀ birth, later.Owns catalog target birth → ∀ state, roster.studio.Lives target state →
        ∃ state', later.studio.Lives target state' ∧
          Clockwork.Tale allowed (birth.Begins catalog) state (roster.studio.diary target turns) state' := by
  induction turns generalizing roster with
  | nil => exact ⟨roster, .refl, rfl, fun birth howns state hlives => ⟨state, hlives, .refl state⟩⟩
  | cons turn rest ih =>
    obtain ⟨hprompt, hrestTime⟩ := htime
    obtain ⟨hleavesTurn, hleavesRest⟩ := List.forall_mem_cons.mp hleaves
    obtain ⟨later, hleads, hlater, htold⟩ := hreached.tells_turn hleavesTurn hprompt
    obtain ⟨last, hlast, hdone, htale⟩ := ih (hreached.trans hleads) hleavesRest (hlater ▸ hrestTime)
    refine ⟨last, hleads.trans hlast, by rw [hdone, hlater]; rfl, fun birth howns state hlives => ?_⟩
    have hearlier := howns.earlier (hreached.sound.leads hleads) hlast
    obtain rfl := howns.handle
    obtain ⟨between, events, noted, hbetween, hevents, hhappened, hfirst⟩ :=
      htold birth hearlier state hlives fun _ => rfl
    obtain ⟨final, hfinal, hrest⟩ := htale birth howns between (hlater ▸ hbetween)
    refine ⟨final, hfinal, ?_⟩
    rw [Clockwork.map_ask_nil] at hfirst
    rw [diary, eventsSince_eq hevents, hhappened]
    exact hfirst.trans (hlater ▸ hrest)

end Roster

end Patchbay
