import Patchbay.Proofs.Box.Beating
import Patchbay.Proofs.Box.Delaying
import Patchbay.Proofs.Studio.Diaries

/-!
# Delays and metronomes in a studio

Delays and metronomes do as they should in every studio, whatever boxes they are wired to and whatever
else goes on there: the diary of a delay is one in which every request is answered once, and that of a
metronome is one in which it keeps its pace.
-/

namespace Patchbay

open Studio

/-- The attributes that a metronome begins with: those that are planned, with what a description says of
them. -/
def Metronome.sheetOf (site : Site) (detail : Dico) : Sheet :=
  ((Timing.planMetro site).attributes.foldl Sheet.add Box.commonSheet).restore detail true

namespace Birth

variable {catalog : Catalog} {birth : Birth} {model : Model}

/-- A box is planned by the model that its name stands for. -/
theorem plan?_of_model (h : (catalog.get? birth.site.name).map Registration.model = some model) :
    birth.plan? catalog = (model.plan birth.site).toOption := by
  obtain ⟨registration, hregistration, rfl⟩ := Option.map_eq_some_iff.mp h
  rw [plan?, hregistration, Option.bind_some]

theorem isTimed_of_delay (h : (catalog.get? birth.site.name).map Registration.model = some .delay) :
    birth.IsTimed catalog := ⟨_, plan?_of_model h, rfl, fun _ => ⟨_, rfl, rfl⟩⟩

theorem isTimed_of_metro (h : (catalog.get? birth.site.name).map Registration.model = some .metro) :
    birth.IsTimed catalog := ⟨_, plan?_of_model h, rfl, fun _ => ⟨_, rfl, rfl⟩⟩

/-- A delay begins with the time that its argument gives, and not armed. -/
theorem Begins.delay (h : (catalog.get? birth.site.name).map Registration.model = some .delay)
    {clockwork : Clockwork} (hbegins : birth.Begins catalog clockwork) :
    Delay.Fits ⟨(birth.site.number? 0).getD 0.0, none⟩ clockwork := by
  obtain ⟨plan, clock, detail, hplan, hstate, -⟩ := hbegins
  rw [plan?_of_model h] at hplan
  obtain rfl := Option.some.inj hplan
  exact ⟨⟨clock, (Machine.timing.inj hstate).symm⟩, nofun⟩

/-- A metronome begins with the attributes that are planned with what a description says of them, and not
armed. -/
theorem Begins.metro (h : (catalog.get? birth.site.name).map Registration.model = some .metro)
    {clockwork : Clockwork} (hbegins : birth.Begins catalog clockwork) : ∃ detail,
      Metronome.Fits { sheet := Metronome.sheetOf birth.site detail } clockwork := by
  obtain ⟨plan, clock, detail, hplan, hstate, hsheet⟩ := hbegins
  rw [plan?_of_model h] at hplan
  obtain rfl := Option.some.inj hplan
  exact ⟨detail, ⟨clock, (Machine.timing.inj hstate).symm⟩, hsheet, rfl, nofun⟩

end Birth

namespace Studio

variable {allowed : Sheet → Nat → Nat → Prop} {catalog : Catalog} {turns : List Turn} {handle : Handle}
  {patch : Patch} {box : Box}

/-- A timing box that is in its patch after some turns was built at some time, and its diary is that of
its clockwork since. -/
theorem exists_trace (hleaves : ∀ turn ∈ turns, turn.leaves handle = true)
    (htime : ({ catalog := catalog } : Studio).OnTime allowed handle turns)
    (hpatch : (({ catalog := catalog } : Studio).turnAll turns).patch? handle.patch = some patch)
    (hbox : patch.box? handle.box = some box)
    (htimed : ∀ birth : Birth, birth.site.name = box.name → birth.IsTimed catalog) :
    ∃ (birth : Birth) (begun clockwork : Clockwork), birth.handle = handle ∧
      birth.site.name = box.name ∧ birth.text = box.text ∧ birth.Begins catalog begun ∧
      Clockwork.Trace allowed begun (diary handle { catalog := catalog } turns) clockwork ∧
      box.machine = .timing clockwork.timing ∧ box.sheet = clockwork.sheet ∧
      clockwork.ticks = (({ catalog := catalog } : Studio).turnAll turns).waiting handle := by
  obtain ⟨later, hleads, hstudio, htale⟩ := Roster.Reached.exists_tale .refl hleaves htime
  have hsound : later.Sound := Roster.Reached.sound hleads
  rw [← hstudio] at hpatch ⊢
  have hfound := Patch.boxOrRetired?_of_box? hbox
  have halive : later.studio.isAlive handle = true := by
    rw [Studio.isAlive, hpatch, Option.bind_some, hbox]
    rfl
  obtain ⟨birth, hpresent, rfl⟩ := (hsound.alive handle).mp halive
  obtain ⟨found, other, hfoundPatch, hother, plan, number, hplan, hpost, -⟩ :=
    Birth.exists_box hsound hpresent
  obtain rfl := Option.some.inj (hpatch.symm.trans hfoundPatch)
  obtain rfl := Option.some.inj (hbox.symm.trans hother)
  obtain ⟨hname, htext, -⟩ := Post.mk.inj hpost
  have howns : later.Owns catalog birth.handle birth :=
    ⟨rfl, htimed birth hname.symm,
      fun other hmem hsame => hsound.eq_of_handle hmem (hsound.present.subset hpresent) hsame,
      fun _ => hpresent⟩
  obtain ⟨state, hlives, htold⟩ := htale birth howns none (.unborn rfl)
  obtain ⟨clockwork, rfl⟩ := Option.ne_none_iff_exists'.mp (hlives.ne_none hpatch hfound)
  obtain ⟨begun, hbegins, htrace⟩ := htold.exists_begun
  obtain ⟨hmachine, hsheet⟩ := hlives.eq_box hpatch hfound
  obtain ⟨_, _, -, -, -, -, hticks, -⟩ := hlives.exists_box
  exact ⟨birth, begun, clockwork, rfl, hname.symm, htext.symm, hbegins, htrace, hmachine, hsheet, hticks⟩

/-- Whatever turns are taken in a studio, a delay that is in its patch afterwards has answered every
request to start as it should: once, when its deadline has come, if no other call came before; and it has
sent nothing else, whatever ticks had been asked for by requests that were superseded or stopped. -/
theorem delays_answer_once (hleaves : ∀ turn ∈ turns, turn.leaves handle = true)
    (hpatch : (({ catalog := catalog } : Studio).turnAll turns).patch? handle.patch = some patch)
    (hbox : patch.box? handle.box = some box)
    (hmodel : (catalog.get? box.name).map Registration.model = some .delay) :
    ∃ birth : Birth, birth.handle = handle ∧ birth.site.name = box.name ∧ birth.text = box.text ∧
      (∃ clock milliseconds armed?, box.machine = .timing (.delay clock milliseconds armed?)) ∧
      Delay.Serves ((birth.site.number? 0).getD 0.0) (diary handle { catalog := catalog } turns)
        ((({ catalog := catalog } : Studio).turnAll turns).waiting handle) := by
  have htime : ({ catalog := catalog } : Studio).OnTime (fun _ _ _ => True) handle turns :=
    onTime_of_forall (fun _ _ _ => trivial) _ _
  obtain ⟨birth, begun, clockwork, hhandle, hname, htext, hbegins, htrace, hmachine, -, hticks⟩ :=
    exists_trace hleaves htime hpatch hbox fun birth hname => Birth.isTimed_of_delay (hname ▸ hmodel)
  have hfits := Birth.Begins.delay (hname ▸ hmodel) hbegins
  obtain ⟨clock, htiming⟩ := (Monitor.accepts_of_trace Delay.accepts_act htrace hfits).2.timing
  exact ⟨birth, hhandle, hname, htext, ⟨clock, _, _, htiming ▸ hmachine⟩, hticks ▸ hfits.serves htrace⟩

/-- A delay of five milliseconds is built and asked to start, and the task that is due first is run. -/
def alarm : List Turn := [
  .addPatch, .move (.operate 0 (.create [("text", [.symbol "delay", .long 5])])),
  .move (.request (.send ⟨0, 0⟩ 0 [bang])), .next]

/-- The request is answered by the bang that the tick brings, after five milliseconds. -/
theorem delays_answer_once_alarm :
    (({} : Studio).turnAll alarm).events =
      [.sent ⟨0, 0⟩ 0 [bang], .ticked ⟨0, 0⟩, .received ⟨0, 0⟩ 0 [bang] 1] ∧
    ∃ birth : Birth, birth.handle = ⟨0, 0⟩ ∧ birth.site.name = "delay" ∧
      Delay.Serves ((birth.site.number? 0).getD 0.0) (diary ⟨0, 0⟩ {} alarm)
        ((({} : Studio).turnAll alarm).waiting ⟨0, 0⟩) := by
  let built : Studio := ({} : Studio).turnAll (alarm.take 2)
  let milliseconds : Float := (Atom.long 5).toDouble
  let wait := waitOfMilliseconds milliseconds
  let started : Reaction Machine :=
    { state := .timing (.delay 0 milliseconds (some (0 + wait)))
      sheet := Box.commonSheet
      effects := [.tickAfter 0 wait]
      verdict := .asFirstEffect }
  let waiting : Studio :=
    (((built.entered ⟨0, 0⟩ 0 [bang]).settleReaction ⟨0, 0⟩ started).tickAfter ⟨0, 0⟩ 0 wait).1.left
  have hwaiting : (Request.send ⟨0, 0⟩ 0 [bang]).perform built = waiting :=
    Request.perform_eq_of_runs rfl
      (.taken Nat.zero_lt_one rfl rfl (.effect (.atOnce rfl) .noEffect))
  let due : Studio :=
    { waiting with timeline := { now := max 0 (0 + min wait longestWait), submitted := 1 } }
  let fired : Reaction Machine :=
    { state := .timing (.delay 0 milliseconds none)
      sheet := Box.commonSheet
      effects := [.send 0 [bang]] }
  have hfired : started.state.tick (due.surroundings ⟨0, 0⟩ Box.commonSheet) = fired := by
    have hdue : 0 + wait ≤ max 0 (0 + min wait longestWait) := by
      rw [Nat.min_eq_left (waitOfMilliseconds_le _)]
      exact Nat.le_max_right _ _
    exact congrArg (Reaction.map Machine.timing) (if_pos hdue)
  let ticked : Studio :=
    ({ due with events := .ticked ⟨0, 0⟩ :: due.events } : Studio).settleReaction ⟨0, 0⟩ fired
  let rung : Studio := { ticked with events := .sent ⟨0, 0⟩ 0 [bang] :: ticked.events }
  have hopening : (Request.tick ⟨0, 0⟩).opening? due = some (ticked, .carryOut ⟨0, 0⟩ fired.effects) := by
    simp only [ticked, ← hfired]
    rfl
  have hrings : Runs 1 0 (.carryOut ⟨0, 0⟩ fired.effects) ticked rung true :=
    .effect (.send (.sent rfl .noTarget)) .noEffect
  have hrung : ({} : Studio).turnAll alarm = rung := by
    show ((Request.send ⟨0, 0⟩ 0 [bang]).perform built).runNext.1 = rung
    rw [hwaiting, ← Request.perform_eq_of_runs hopening hrings]
    rfl
  have hleaves : ∀ turn ∈ alarm, turn.leaves ⟨0, 0⟩ = true := by decide
  have hpatch : ∃ patch box, (({} : Studio).turnAll alarm).patch? 0 = some patch ∧
      patch.box? 0 = some box ∧ box.name = "delay" := by
    rw [hrung]
    exact ⟨_, _, rfl, rfl, rfl⟩
  obtain ⟨patch, box, hpatch, hbox, hname⟩ := hpatch
  have hmodel : (Catalog.standard.get? box.name).map Registration.model = some .delay := by
    rw [hname]
    rfl
  refine ⟨hrung ▸ rfl, ?_⟩
  obtain ⟨birth, hhandle, hsame, -, -, hserves⟩ := delays_answer_once hleaves hpatch hbox hmodel
  exact ⟨birth, hhandle, hsame.trans hname, hserves⟩

/-- Whatever turns are taken in a studio, a metronome that is in its patch afterwards has kept its pace, if
none of its ticks was taken an interval late or later: it is armed for at most one deadline, and has
banged once for each, which lies an interval after the one before, from when it was started until it was
started anew or stopped, be it by what its own bang brought about; and it has sent nothing else. -/
theorem metronomes_keep_pace (hleaves : ∀ turn ∈ turns, turn.leaves handle = true)
    (htime : ({ catalog := catalog } : Studio).OnTime Metronome.InTime handle turns)
    (hpatch : (({ catalog := catalog } : Studio).turnAll turns).patch? handle.patch = some patch)
    (hbox : patch.box? handle.box = some box)
    (hmodel : (catalog.get? box.name).map Registration.model = some .metro) :
    ∃ (birth : Birth) (detail : Dico) (armed? : Option Nat), birth.handle = handle ∧
      birth.site.name = box.name ∧ birth.text = box.text ∧
      (∃ clock, box.machine = .timing (.metro clock armed?)) ∧
      box.sheet = Metronome.sheetAfter (Metronome.sheetOf birth.site detail)
        (diary handle { catalog := catalog } turns) ∧
      Metronome.Keeps (Metronome.sheetOf birth.site detail) (diary handle { catalog := catalog } turns)
        armed? ((({ catalog := catalog } : Studio).turnAll turns).waiting handle) := by
  obtain ⟨birth, begun, clockwork, hhandle, hname, htext, hbegins, htrace, hmachine, hsheet, hticks⟩ :=
    exists_trace hleaves htime hpatch hbox fun birth hname => Birth.isTimed_of_metro (hname ▸ hmodel)
  obtain ⟨detail, hfits⟩ := Birth.Begins.metro (hname ▸ hmodel) hbegins
  obtain ⟨armed?, ⟨clock, htiming⟩, hlater, hkeeps⟩ := hfits.keeps htrace
  exact ⟨birth, detail, armed?, hhandle, hname, htext, ⟨clock, htiming ▸ hmachine⟩,
    hsheet.trans hlater, hticks ▸ hkeeps⟩

/-- A metronome is built and started, and the task that is due first is run. -/
def beat : List Turn := [
  .addPatch, .move (.operate 0 (.create [("text", [.symbol "metro", .long 250])])),
  .move (.request (.send ⟨0, 0⟩ 0 [bang])), .next]

/-- It bangs when it is started, and again when its first tick is taken in time. -/
theorem metronomes_keep_pace_beat :
    (({} : Studio).turnAll beat).events =
      [.sent ⟨0, 0⟩ 0 [bang], .ticked ⟨0, 0⟩, .sent ⟨0, 0⟩ 0 [bang], .received ⟨0, 0⟩ 0 [bang] 1] ∧
    ∃ (birth : Birth) (detail : Dico) (armed? : Option Nat), birth.handle = ⟨0, 0⟩ ∧
      birth.site.name = "metro" ∧
      Metronome.Keeps (Metronome.sheetOf birth.site detail) (diary ⟨0, 0⟩ {} beat) armed?
        ((({} : Studio).turnAll beat).waiting ⟨0, 0⟩) := by
  let built : Studio := ({} : Studio).turnAll (beat.take 2)
  let detail : Dico := [("text", [.symbol "metro", .long 250])]
  let sheet : Sheet := Metronome.sheetOf ⟨"metro", [.long 250], detail.keys, 0⟩ detail
  let wait := Timing.interval sheet
  let now := max 0 (0 + min wait longestWait)
  have hpositive : 0 < wait := by decide +kernel
  have hnow : now = wait := by
    have hshort : wait ≤ longestWait := waitOfMilliseconds_le _
    show max 0 (0 + min wait longestWait) = wait
    rw [Nat.min_eq_left hshort]
    omega
  let started : Reaction Machine :=
    { state := .timing (.metro 0 (some (0 + wait)))
      sheet := sheet
      effects := [.tickAfter 0 wait, .send 0 [bang]] }
  let asked : Studio :=
    (((built.entered ⟨0, 0⟩ 0 [bang]).settleReaction ⟨0, 0⟩ started).tickAfter ⟨0, 0⟩ 0 wait).1
  let waiting : Studio := left { asked with events := .sent ⟨0, 0⟩ 0 [bang] :: asked.events }
  have hwaiting : (Request.send ⟨0, 0⟩ 0 [bang]).perform built = waiting :=
    Request.perform_eq_of_runs rfl (.taken Nat.zero_lt_one rfl rfl
      (.effect (.atOnce rfl) (.effect (.send (.sent rfl .noTarget)) .noEffect)))
  let due : Studio := { waiting with timeline := { now := now, submitted := 1 } }
  let armed (next : Nat) : Reaction Timing :=
    { state := .metro 0 (some next)
      sheet := sheet
      effects := [.tickAfter 0 (next - now), .send 0 [bang]] }
  let fired : Reaction Machine := (armed (0 + wait + wait)).map .timing
  have hfired : started.state.tick (due.surroundings ⟨0, 0⟩ sheet) = fired := by
    have hdue : 0 + wait ≤ now := by omega
    have hnext : (if 0 + wait + wait ≤ now then now + wait else 0 + wait + wait) = 0 + wait + wait :=
      if_neg (by omega)
    have harmed : (Timing.metro 0 (some (0 + wait))).tick (due.surroundings ⟨0, 0⟩ sheet) =
        armed (0 + wait + wait) := (if_pos hdue).trans (congrArg armed hnext)
    exact congrArg (Reaction.map Machine.timing) harmed
  let ticked : Studio :=
    ({ due with events := .ticked ⟨0, 0⟩ :: due.events } : Studio).settleReaction ⟨0, 0⟩ fired
  let again : Studio := (ticked.tickAfter ⟨0, 0⟩ 0 (0 + wait + wait - now)).1
  let beaten : Studio := { again with events := .sent ⟨0, 0⟩ 0 [bang] :: again.events }
  have hopening : (Request.tick ⟨0, 0⟩).opening? due = some (ticked, .carryOut ⟨0, 0⟩ fired.effects) := by
    simp only [ticked, ← hfired]
    rfl
  have hbeats : Runs 1 0 (.carryOut ⟨0, 0⟩ fired.effects) ticked beaten true :=
    .effect (.atOnce rfl) (.effect (.send (.sent rfl .noTarget)) .noEffect)
  have hbeaten : ({} : Studio).turnAll beat = beaten := by
    show ((Request.send ⟨0, 0⟩ 0 [bang]).perform built).runNext.1 = beaten
    rw [hwaiting, ← Request.perform_eq_of_runs hopening hbeats]
    rfl
  have hleaves : ∀ turn ∈ beat, turn.leaves ⟨0, 0⟩ = true := by decide
  -- The tick is taken when it is due, and the interval is no shorter than a moment.
  have hprompt : ((Request.send ⟨0, 0⟩ 0 [bang]).perform built).Prompt Metronome.InTime ⟨0, 0⟩ .next := by
    rw [hwaiting]
    rintro _ ⟨⟩ - _ ⟨⟩
    show now < 0 + min wait longestWait + wait
    omega
  have htime : ({} : Studio).OnTime Metronome.InTime ⟨0, 0⟩ beat :=
    ⟨trivial, trivial, trivial, hprompt, trivial⟩
  have hpatch : ∃ patch box, (({} : Studio).turnAll beat).patch? 0 = some patch ∧
      patch.box? 0 = some box ∧ box.name = "metro" := by
    rw [hbeaten]
    exact ⟨_, _, rfl, rfl, rfl⟩
  obtain ⟨patch, box, hpatch, hbox, hname⟩ := hpatch
  have hmodel : (Catalog.standard.get? box.name).map Registration.model = some .metro := by
    rw [hname]
    rfl
  refine ⟨hbeaten ▸ rfl, ?_⟩
  obtain ⟨birth, detail, armed?, hhandle, hsame, -, -, -, hkeeps⟩ :=
    metronomes_keep_pace hleaves htime hpatch hbox hmodel
  exact ⟨birth, detail, armed?, hhandle, hsame.trans hname, hkeeps⟩

end Studio

end Patchbay
