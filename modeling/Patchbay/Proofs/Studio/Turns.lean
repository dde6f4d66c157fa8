import Patchbay.Proofs.Studio.Building
import Patchbay.Proofs.Studio.Roster
import Patchbay.Proofs.Studio.Sane
import Patchbay.Studio.Time

/-!
# Turns in a studio

Everything that is done in a studio from outside, and everything that it does by itself when the time
has come, is a turn. Whatever a turn brings about, a message with all that it leads to included, takes
the roster through its steps.
-/

namespace Patchbay

namespace Studio

variable {studio later : Studio} {number : Nat} {patch : Patch}

/-- Nothing happens to who is where when an event is noted. -/
theorem Alike.note (studio : Studio) (event : Event) :
    studio.Alike { studio with events := event :: studio.events } :=
  .of_patches rfl rfl rfl rfl rfl rfl

/-- Nothing happens to who is where when a delivery is over. -/
theorem Alike.left (studio : Studio) : studio.Alike studio.left := .of_patches rfl rfl rfl rfl rfl rfl

/-- Nothing happens to who is where when a line is printed. -/
theorem Alike.print (studio : Studio) (line : String) : studio.Alike (studio.print line) := by
  refine .of_patches ?_ ?_ ?_ ?_ ?_ ?_ <;> simp only [Studio.print]

/-- Nothing happens to who is where when a box reacts. -/
theorem Alike.settleReaction {handle : Handle} (hpatch : studio.patch? handle.patch = some patch)
    {box : Box} (hbox : patch.boxOrRetired? handle.box = some box) {reaction : Reaction Machine}
    (hstation : reaction.state.station = box.machine.station) :
    studio.Alike (studio.settleReaction handle reaction) := by
  simp only [Studio.settleReaction, hpatch]
  refine .setPatch hpatch (.updateBox hbox (fun _ => rfl) ?_)
  simp only [Box.post, hstation]

/-- The box that takes in a message is in its patch or was taken out. -/
theorem exists_of_taker? {handle : Handle} {box : Box} (h : studio.taker? handle = some box) :
    ∃ patch, studio.patch? handle.patch = some patch ∧ patch.boxOrRetired? handle.box = some box := by
  obtain ⟨patch, hpatch, htaker⟩ := Option.bind_eq_some_iff.mp h
  split at htaker
  · exact ⟨patch, hpatch, htaker⟩
  · cases htaker

/-- Nothing happens to who is where when a box takes in a message. -/
theorem Alike.receive {handle : Handle} {box : Box} (hbox : studio.taker? handle = some box)
    (inlet : Nat) (atoms : List Atom) :
    studio.Alike ((studio.entered handle inlet atoms).settleReaction handle
      (box.machine.receive (studio.surroundings handle box.sheet) inlet atoms)) := by
  obtain ⟨patch, hpatch, hfound⟩ := exists_of_taker? hbox
  have hentered : studio.Alike (studio.entered handle inlet atoms) := .of_patches rfl rfl rfl rfl rfl rfl
  have hpatchEntered : (studio.entered handle inlet atoms).patch? handle.patch = some patch := hpatch
  exact hentered.trans (.settleReaction hpatchEntered hfound (Machine.station_receive _ _ _ _))

/-- Nothing happens to who is where when a box is ticked. -/
theorem Alike.tick {handle : Handle} (hpatch : studio.patch? handle.patch = some patch) {box : Box}
    (hbox : patch.box? handle.box = some box) (here : Surroundings) :
    studio.Alike (({ studio with events := .ticked handle :: studio.events } : Studio).settleReaction
      handle (box.machine.tick here)) := by
  let ticked : Studio := { studio with events := .ticked handle :: studio.events }
  have hticked : studio.Alike ticked := .note _ _
  have hpatchTicked : ticked.patch? handle.patch = some patch := hpatch
  exact hticked.trans (.settleReaction hpatchTicked (Patch.boxOrRetired?_of_box? hbox)
    (Machine.station_tick _ _))

/-- Nothing happens to who is where when a listener takes note. -/
theorem Alike.hearing {atoms : List Atom} {listener : Nat} {reply? : Option Reply}
    (hheard : studio.hearing atoms listener = (later, reply?)) : studio.Alike later := by
  unfold Studio.hearing at hheard
  split at hheard
  · obtain ⟨rfl, -⟩ := Prod.mk.inj hheard
    exact .refl studio
  · obtain ⟨rfl, -⟩ := Prod.mk.inj hheard
    exact .of_patches rfl rfl rfl rfl rfl rfl

/-- Nothing happens to who is where when signals are processed. -/
theorem Alike.adjust (studio : Studio) (number : Nat) {change : Patch → Patch}
    (hchange : ∀ patch, studio.patch? number = some patch → patch.SameStills (change patch)) :
    studio.Alike (studio.adjust number change) := by
  unfold Studio.adjust
  split
  · exact .refl studio
  · next patch hpatch => exact .setPatch hpatch (.of_sameStills (hchange patch hpatch))

/-- What is done from outside, and what happens when the time has come. -/
inductive Turn where
  | addPatch
  | dropPatch (number : Nat)
  | move (move : Move)
  /-- The depth to which deliveries into a patch may nest is set. -/
  | limit (number limit : Nat)
  /-- The clock of a box is told to tick it. -/
  | clock (handle : Handle) (wait : Nat)
  /-- Someone waits. -/
  | mark (wait : Nat)
  /-- Time passes, and whoever runs the tasks is late. -/
  | lag (wait : Nat)
  /-- The task that is due first is run. -/
  | next

/-- Take a turn. -/
def turn (studio : Studio) : Turn → Studio
  | .addPatch => studio.addPatch.1
  | .dropPatch number => studio.dropPatch number
  | .move move => studio.move move
  | .limit number limit => studio.adjust number fun patch => patch.setDepthLimit limit
  | .clock handle wait => (studio.tickAfter handle studio.clock wait).1
  | .mark wait => { studio with timeline := (studio.timeline.schedule wait .mark).1 }
  | .lag wait => { studio with timeline.now := studio.timeline.now + wait }
  | .next => studio.runNext.1

/-- Take turns one after the other. -/
def turnAll (studio : Studio) (turns : List Turn) : Studio := turns.foldl turn studio

end Studio

open Studio

namespace Roster

variable {roster later : Roster} {studio : Studio} {number : Nat}

/-- A step leaves the catalog as it is. -/
theorem Step.catalog (h : Step roster later) :
    later.studio.catalog = roster.studio.catalog := by
  cases h with
  | create | refuse => exact catalog_create _ _ _
  | remove | clear | rewire => exact catalog_editPatch _ _ _
  | addPatch | dropPatch | name | time => rfl
  | aside halike => exact halike.catalog

theorem Reached.catalog {catalog : Catalog} (h : Reached catalog roster) :
    roster.studio.catalog = catalog := by
  induction h with
  | refl => rfl
  | tail _ hstep ih => exact hstep.catalog.trans ih

/-- The studio of a roster becomes another. -/
def Becomes (roster : Roster) (studio : Studio) : Prop :=
  ∃ later, roster.Leads later ∧ later.studio = studio

namespace Becomes

theorem refl (roster : Roster) : roster.Becomes roster.studio := ⟨roster, .refl, rfl⟩

theorem step (h : Step roster later) : roster.Becomes later.studio := ⟨later, .single h, rfl⟩

/-- What a studio becomes can become another. -/
theorem trans (h : roster.Becomes studio) {last : Studio}
    (hlast : ∀ later : Roster, roster.Leads later → later.studio = studio → later.Becomes last) :
    roster.Becomes last := by
  obtain ⟨later, hleads, hstudio⟩ := h
  obtain ⟨final, hfinal, hlast⟩ := hlast later hleads hstudio
  exact ⟨final, hleads.trans hfinal, hlast⟩

theorem aside (h : roster.studio.Alike studio) : roster.Becomes studio := .step (.aside h)

end Becomes

/-- Building a box is a step, whether it succeeds or not. -/
theorem becomes_create (roster : Roster) (number : Nat) (detail : Dico) :
    roster.Becomes (roster.studio.create number detail).1 := by
  cases hcreate : (roster.studio.create number detail).2 with
  | error error => exact .step (.refuse roster number detail hcreate)
  | ok id =>
    rcases roster.studio.create_outcomes number detail with ⟨_, heq⟩ | ⟨_, _, -, heq⟩ |
      ⟨_, name, arguments, _, _, -, hdescribe, -, -, -⟩
    · rw [heq] at hcreate
      cases hcreate
    · rw [heq] at hcreate
      cases hcreate
    · exact .step (.create roster number detail hcreate hdescribe)

/-- Wires are drawn in steps. -/
theorem becomes_connect (roster : Roster) (number source outlet target inlet : Nat) :
    roster.Becomes
      (roster.studio.editPatch number fun patch => patch.connect source outlet target inlet).1 :=
  .step (.rewire roster number fun _ _ => Patch.sameStills_connect)

/-- Wires are taken away in steps. -/
theorem becomes_disconnect (roster : Roster) (number source outlet target inlet : Nat) :
    roster.Becomes
      (roster.studio.editPatch number fun patch => patch.disconnect source outlet target inlet).1 :=
  .step (.rewire roster number fun _ _ => Patch.sameStills_disconnect)

/-- Boxes edit their patch in steps. -/
theorem becomes_applyEdit (roster : Roster) (number : Nat) (edit : Edit) :
    roster.Becomes (roster.studio.applyEdit number edit).1 := by
  cases edit with
  | remove id => exact .step (.remove roster number id)
  | connect source outlet target inlet => exact becomes_connect roster number _ _ _ _
  | disconnect source outlet target inlet => exact becomes_disconnect roster number _ _ _ _
  | create words => exact becomes_create roster number _
  | clear => exact .step (.clear roster number)

/-- Clocks are told to tick in steps. -/
theorem becomes_tickAfter (roster : Roster) (handle : Handle) (clock wait : Nat) :
    roster.Becomes (roster.studio.tickAfter handle clock wait).1 := by
  unfold tickAfter
  split
  · exact .step (.time (.schedule _ wait _))
  · exact .refl roster

/-- A run takes the roster through steps. -/
theorem becomes_run {most depth : Nat} {call : Studio.Call} {before after : Studio} {outcome : Bool}
    (h : Runs most depth call before after outcome) (roster : Roster) (hstudio : roster.studio = before) :
    roster.Becomes after := by
  induction h generalizing roster with
  | dropped | noTarget | nowhere | absent | reachedAll | noEffect =>
    exact hstudio ▸ .refl roster
  | @taken depth handle inlet atoms before after box reaction outcome hroom hbox hreaction heffects ih =>
    subst hreaction hstudio
    refine Becomes.trans (.aside (.receive hbox inlet atoms)) fun later _ hlater => ?_
    refine Becomes.trans (ih later hlater) fun last _ hlast => ?_
    exact hlast ▸ .aside (.left last.studio)
  | sent hpatch htargets ih =>
    subst hstudio
    exact Becomes.trans (.aside (.note _ _)) fun later _ hlater => ih later hlater
  | heard hheard =>
    subst hstudio
    exact .aside (.hearing hheard)
  | replied hheard hreply ih =>
    subst hstudio
    exact Becomes.trans (.aside (.hearing hheard)) fun later _ hlater => ih later hlater
  | @atOnce depth handle effect before after outcome hdone =>
    subst hstudio
    cases effect with
    | send | broadcast => cases hdone
    | print line =>
      obtain ⟨rfl, -⟩ := Prod.mk.inj (Option.some.inj hdone)
      exact .aside (.print _ line)
    | tickAfter clock wait =>
      obtain rfl : (roster.studio.tickAfter handle clock wait).1 = after :=
        congrArg Prod.fst (Option.some.inj hdone)
      exact becomes_tickAfter roster handle clock wait
    | edit edit =>
      obtain rfl : (roster.studio.applyEdit handle.patch edit).1 = after :=
        congrArg Prod.fst (Option.some.inj hdone)
      exact becomes_applyEdit roster handle.patch edit
  | present halive hrun ih | send hrun ih | broadcast hrun ih => exact ih roster hstudio
  | target hfirst hrest ihFirst ihRest | reached hfirst hrest ihFirst ihRest
  | effect hfirst hrest ihFirst ihRest =>
    exact Becomes.trans (ihFirst roster hstudio) fun later _ hlater => ihRest later hlater

/-- Saved patches are read in steps. -/
theorem becomes_readPatch (roster : Roster) (number : Nat) (saved : Dico) :
    roster.Becomes (roster.studio.readPatch number saved).1 := by
  refine readPatch_induction (P := roster.Becomes) ?clear ?create ?connect saved (.refl roster)
  case clear =>
    exact fun _ h => h.trans fun later _ hlater => hlater ▸ .step (.clear later number)
  case create =>
    exact fun _ detail h => h.trans fun later _ hlater => hlater ▸ becomes_create later number detail
  case connect =>
    exact fun _ source outlet target inlet h => h.trans fun later _ hlater =>
      hlater ▸ becomes_connect later number source outlet target inlet

/-- Operations take the roster through steps. -/
theorem Sound.becomes_operate (h : roster.Sound) (number : Nat) (operation : Operation) :
    roster.Becomes (roster.studio.operate number operation) := by
  have hnodup : ∀ patch, roster.studio.patch? number = some patch → patch.ids.Nodup :=
    fun patch hpatch => (h.housed.tagged number patch hpatch).nodup_ids
  cases operation with
  | create detail => exact becomes_create roster number detail
  | createFromText text => exact becomes_create roster number _
  | remove id => exact .step (.remove roster number id)
  | clear => exact .step (.clear roster number)
  | connect source outlet target inlet => exact becomes_connect roster number _ _ _ _
  | disconnect source outlet target inlet => exact becomes_disconnect roster number _ _ _ _
  | read saved => exact becomes_readPatch roster number saved
  | setChannels inputs outputs => exact .aside (.adjust _ number fun _ _ => ⟨rfl, rfl, rfl⟩)
  | start sampleRate blockSize =>
    exact .aside (.adjust _ number fun patch _ => patch.sameStills_start sampleRate blockSize)
  | stop => exact .aside (.adjust _ number fun patch _ => patch.sameStills_stop)
  | tick => exact .aside (.adjust _ number fun patch hpatch => Patch.sameStills_tick (hnodup patch hpatch))
  | process inputs sizes =>
    exact .aside (.adjust _ number fun patch hpatch =>
      Patch.sameStills_process (hnodup patch hpatch) inputs sizes)

/-- Requests take the roster through steps. -/
theorem becomes_perform (roster : Roster) (request : Request) :
    roster.Becomes (request.perform roster.studio) := by
  cases hopening : request.opening? roster.studio with
  | none =>
    rw [Request.perform_of_none hopening]
    exact .refl roster
  | some entry =>
    obtain ⟨opened, call⟩ := entry
    obtain ⟨outcome, hruns⟩ := Request.exists_run hopening
    have hopened : roster.Becomes opened := by
      cases request with
      | send handle inlet atoms | sendFrom handle outlet atoms =>
        simp only [Request.opening?] at hopening
        split at hopening
        · obtain ⟨rfl, -⟩ := Prod.mk.inj (Option.some.inj hopening)
          exact .refl roster
        · cases hopening
      | tick handle =>
        obtain ⟨box, hbox, hopened⟩ := Option.map_eq_some_iff.mp hopening
        obtain ⟨rfl, -⟩ := Prod.mk.inj hopened
        obtain ⟨patch, hpatch, hfound⟩ := Option.bind_eq_some_iff.mp hbox
        exact .aside (.tick hpatch hfound _)
      | broadcast name atoms =>
        obtain ⟨rfl, -⟩ := Prod.mk.inj (Option.some.inj hopening)
        exact .step (.name roster name)
    exact hopened.trans fun later _ hlater => becomes_run hruns later hlater

/-- The task that is due first is run in steps. -/
theorem becomes_runNext (roster : Roster) : roster.Becomes roster.studio.runNext.1 := by
  unfold runNext
  split
  · exact .refl roster
  next entry timeline hnext =>
  have htaken : roster.Becomes { roster.studio with timeline } := .step (.time (.next hnext))
  dsimp only
  split
  · next handle htask =>
    refine htaken.trans fun later _ hlater => ?_
    have hticked := becomes_perform later (.tick handle)
    rw [hlater] at hticked
    exact hticked
  · exact htaken

/-- Every turn takes the roster through steps. -/
theorem Sound.becomes_turn (h : roster.Sound) (turn : Turn) :
    roster.Becomes (roster.studio.turn turn) := by
  cases turn with
  | addPatch => exact .step (.addPatch roster)
  | dropPatch number => exact .step (.dropPatch roster number)
  | move move =>
    cases move with
    | operate number operation => exact h.becomes_operate number operation
    | request request => exact becomes_perform roster request
  | limit number limit => exact .aside (.adjust _ number fun _ _ => ⟨rfl, rfl, rfl⟩)
  | clock handle wait => exact becomes_tickAfter roster handle _ wait
  | mark wait => exact .step (.time (.schedule _ wait _))
  | lag wait => exact .step (.time (.lag _ wait))
  | next => exact becomes_runNext roster

/-- So do turns one after the other. -/
theorem Sound.becomes_turnAll (h : roster.Sound) (turns : List Turn) :
    roster.Becomes (roster.studio.turnAll turns) := by
  induction turns generalizing roster with
  | nil => exact .refl roster
  | cons first rest ih =>
    refine (h.becomes_turn first).trans fun later hleads hlater => ?_
    have hrest := ih (h.leads hleads)
    rw [hlater] at hrest
    exact hrest

/-- Whatever turns are taken in a studio without patches, its roster is reached by steps. -/
theorem reached_turnAll (catalog : Catalog) (turns : List Turn) :
    ∃ roster, Reached catalog roster ∧
      roster.studio = ({ catalog := catalog } : Studio).turnAll turns :=
  (Sound.empty catalog).becomes_turnAll turns

end Roster

namespace Studio

/-- Turns that follow one turn are one more. -/
theorem exists_turns_cons {studio later last : Studio} (hturn : studio.turn .next = later)
    (h : ∃ count, last = later.turnAll (List.replicate count .next)) :
    ∃ count, last = studio.turnAll (List.replicate count .next) := by
  obtain ⟨count, hcount⟩ := h
  refine ⟨count + 1, ?_⟩
  rw [hcount, List.replicate_succ, turnAll, turnAll, List.foldl_cons, hturn]

/-- Waiting is a mark on the timeline, and turns until it has been taken. -/
theorem pass_eq_turnAll (studio : Studio) (wait : Nat) :
    ∃ count, studio.pass wait = studio.turnAll (.mark wait :: List.replicate count .next) := by
  have hrun : ∀ (number steps : Nat) (studio : Studio),
      ∃ count, runToMark number steps studio = studio.turnAll (List.replicate count .next) := by
    intro number steps
    induction steps with
    | zero => exact fun studio => ⟨0, rfl⟩
    | succ steps ih =>
      intro studio
      unfold runToMark
      cases hnext : studio.runNext with
      | mk later entry? =>
        have hturn : studio.turn .next = later := congrArg Prod.fst hnext
        cases entry? with
        | none => exact ⟨1, hturn.symm⟩
        | some entry =>
          dsimp only
          split
          · exact ⟨1, hturn.symm⟩
          · exact exists_turns_cons hturn (ih later)
  exact hrun _ _ _

/-- So is waiting until a listener has heard so much, without the mark. -/
theorem waitFor_eq_turnAll (studio : Studio) (name : String) (target : Nat) :
    ∃ count, studio.waitFor name target = studio.turnAll (List.replicate count .next) := by
  have hrun : ∀ (steps : Nat) (studio : Studio),
      ∃ count, runToCount name target steps studio = studio.turnAll (List.replicate count .next) := by
    intro steps
    induction steps with
    | zero => exact fun studio => ⟨0, rfl⟩
    | succ steps ih =>
      intro studio
      unfold runToCount
      split
      · exact ⟨0, rfl⟩
      cases hnext : studio.runNext with
      | mk later entry? =>
        have hturn : studio.turn .next = later := congrArg Prod.fst hnext
        cases entry? with
        | none => exact ⟨1, hturn.symm⟩
        | some entry => exact exists_turns_cons hturn (ih later)
  exact hrun _ studio

end Studio

end Patchbay
