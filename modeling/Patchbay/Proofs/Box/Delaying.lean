import Patchbay.Proofs.Box.Clockwork
import Mathlib.Data.List.Induction
import Mathlib.Data.List.TakeWhile

/-!
# A delay answers every request once

What a delay does told by its diary alone. A request to start has one bang, at its deadline or later, if
nothing else calls upon the delay before; and every bang answers the request that was made last. A tick
that was asked for by another request may be the one that brings the bang, and the tick of the request
itself then brings none. What carries this is that the deadline for which a delay is armed is always that
of a tick that waits.
-/

namespace Patchbay

/-- What a delay has to know: its time, and the deadline for which it is armed. -/
structure Delay where
  milliseconds : Float
  armed? : Option Nat

namespace Delay

/-- What a message asks of a delay. -/
inductive Order where
  /-- To bang after a time, be it given with the request or before. -/
  | start (given? : Option Float)
  | stop
  | time (given : Float)

/-- What is asked of a delay. -/
def order? : Happening → Option Order
  | .received inlet (first :: _) =>
    if inlet = 0 then
      if first.isWord "bang" then some (.start none)
      else if first.isWord "stop" then some .stop
      else if first.isNumber then some (.start (some first.toDouble))
      else none
    else if inlet = 1 && first.isNumber then some (.time first.toDouble)
    else none
  | _ => none

/-- Decide whether a delay is called upon to start or to stop. -/
def isCall (entry : Nat × Happening) : Bool :=
  match order? entry.2 with
  | some (.start _) | some .stop => true
  | _ => false

/-- The time that a delay has been given last. -/
def timeAfter (milliseconds : Float) (diary : Diary) : Float :=
  diary.foldl (fun milliseconds entry =>
    match order? entry.2 with
    | some (.start given?) => given?.getD milliseconds
    | some (.time given) => given
    | _ => milliseconds) milliseconds

/-- The deadline of a request to start that is made at a time. -/
def deadline (milliseconds : Float) (time : Nat) (given? : Option Float) : Nat :=
  time + waitOfMilliseconds (given?.getD milliseconds)

/-- A diary in which every request is answered as it should be. The delay had a time to begin with and
was not armed; at the end ticks wait for it. -/
structure Serves (milliseconds : Float) (diary : Diary) (waiting : Multiset Nat) : Prop where
  /-- A request has exactly one bang before the next call, at its deadline or later; or it has none, and
  then there is another call or its tick is still waiting. -/
  answered : ∀ earlier time request given? rest,
    diary = earlier ++ (time, request) :: rest → order? request = some (.start given?) →
    (∃ before moment after,
      (rest.takeWhile fun entry => !isCall entry) = before ++ (moment, .sent 0 [bang]) :: after ∧
        deadline (timeAfter milliseconds earlier) time given? ≤ moment ∧
        Diary.Silent before ∧ Diary.Silent after) ∨
    Diary.Silent (rest.takeWhile fun entry => !isCall entry) ∧
      ((rest.takeWhile fun entry => !isCall entry) = rest →
        deadline (timeAfter milliseconds earlier) time given? ∈ waiting)
  /-- A tick brings the bang at once if the deadline of a request has come since which there has been no
  call and no bang, whatever the tick was asked for. -/
  prompt : ∀ before time request given? between moment rest,
    diary = before ++ (time, request) :: (between ++ (moment, .ticked) :: rest) →
    order? request = some (.start given?) → (∀ entry ∈ between, isCall entry = false) →
    Diary.Silent between → deadline (timeAfter milliseconds before) time given? ≤ moment →
    ∃ more, rest = (moment, .sent 0 [bang]) :: more
  /-- Whatever is sent is a bang, and there is a request that it answers: one whose deadline has come, and
  since which there has been no call and no bang. -/
  asked : ∀ earlier moment outlet atoms rest,
    diary = earlier ++ (moment, .sent outlet atoms) :: rest →
    outlet = 0 ∧ atoms = [bang] ∧ ∃ before time request given? between,
      earlier = before ++ (time, request) :: between ∧ order? request = some (.start given?) ∧
        deadline (timeAfter milliseconds before) time given? ≤ moment ∧
        Diary.Silent between ∧ ∀ entry ∈ between, isCall entry = false

/-- What a delay knows after something has happened. -/
def note (delay : Delay) (entry : Nat × Happening) : Delay :=
  match order? entry.2 with
  | some (.start given?) =>
    ⟨given?.getD delay.milliseconds, some (deadline delay.milliseconds entry.1 given?)⟩
  | some .stop => { delay with armed? := none }
  | some (.time given) => { delay with milliseconds := given }
  | none => if entry.2.isSent then { delay with armed? := none } else delay

/-- A delay sends bangs only, and only when it is armed and the deadline has come. -/
def monitor : Monitor Delay where
  note := note
  allows delay entry := ∀ outlet atoms, entry.2 = .sent outlet atoms →
    outlet = 0 ∧ atoms = [bang] ∧ ∃ due, delay.armed? = some due ∧ due ≤ entry.1

/-- A clockwork is a delay that knows this, and the tick for which it is armed waits. -/
structure Fits (delay : Delay) (clockwork : Clockwork) : Prop where
  timing : ∃ clock, clockwork.timing = .delay clock delay.milliseconds delay.armed?
  pending : ∀ due, delay.armed? = some due → due ∈ clockwork.ticks

variable {delay : Delay} {clockwork later : Clockwork} {diary : Diary}

section Entries

variable {entry : Nat × Happening}

theorem note_start {given? : Option Float} (h : order? entry.2 = some (.start given?)) :
    delay.note entry =
      ⟨given?.getD delay.milliseconds, some (deadline delay.milliseconds entry.1 given?)⟩ := by
  simp only [note, h]

theorem note_stop (h : order? entry.2 = some .stop) :
    delay.note entry = { delay with armed? := none } := by
  simp only [note, h]

theorem note_time {given : Float} (h : order? entry.2 = some (.time given)) :
    delay.note entry = { delay with milliseconds := given } := by
  simp only [note, h]

theorem note_none (h : order? entry.2 = none) (hsent : entry.2.isSent = false) :
    delay.note entry = delay := by
  simp [note, h, hsent]

theorem order?_of_isSent (h : entry.2.isSent = true) : order? entry.2 = none := by
  obtain ⟨time, happening⟩ := entry
  cases happening with
  | sent => rfl
  | received | ticked => cases h

theorem note_sent (h : entry.2.isSent = true) : delay.note entry = { delay with armed? := none } := by
  simp [note, order?_of_isSent h, h]

/-- Whoever calls asks to start or to stop. -/
theorem order?_of_isCall (h : isCall entry = true) :
    (∃ given?, order? entry.2 = some (.start given?)) ∨ order? entry.2 = some .stop := by
  unfold isCall at h
  split at h
  · next given? horder => exact Or.inl ⟨given?, horder⟩
  · next horder => exact Or.inr horder
  · cases h

/-- What is no call and sends nothing leaves a delay armed as it is. -/
theorem armed?_note (hcall : isCall entry = false) (hsent : entry.2.isSent = false) :
    (delay.note entry).armed? = delay.armed? := by
  rcases horder : order? entry.2 with _ | _ | _ | _
  · rw [note_none horder hsent]
  · simp [isCall, horder] at hcall
  · simp [isCall, horder] at hcall
  · rw [note_time horder]

end Entries

/-- The monitor knows the time that was given last. -/
theorem milliseconds_after (delay : Delay) (diary : Diary) :
    (monitor.after delay diary).milliseconds = timeAfter delay.milliseconds diary := by
  induction diary generalizing delay with
  | nil => rfl
  | cons entry rest ih =>
    have hentry : (delay.note entry).milliseconds = timeAfter delay.milliseconds [entry] := by
      simp only [note, timeAfter, List.foldl_cons, List.foldl_nil]
      cases order? entry.2 with
      | none => dsimp only; split <;> rfl
      | some order => cases order <;> rfl
    exact (ih (delay.note entry)).trans (congrArg (fun time => timeAfter time rest) hentry)

section Clockworks

variable {clock : Nat} {milliseconds : Float} {armed? : Option Nat} {here : Surroundings}

/-- What a delay does with a message. -/
theorem receive_eq (inlet : Nat) (atoms : List Atom) :
    (Timing.delay clock milliseconds armed?).receive here inlet atoms =
      match order? (.received inlet atoms) with
      | some (.start given?) => Timing.startDelay here clock (given?.getD milliseconds)
      | some .stop => { state := .delay clock milliseconds none, sheet := here.sheet }
      | some (.time given) => { state := .delay clock given armed?, sheet := here.sheet }
      | none => .ignore (.delay clock milliseconds armed?) here.sheet := by
  cases atoms with
  | nil => rfl
  | cons first rest =>
    simp only [Timing.receive, order?]
    by_cases hleft : inlet = 0
    · subst hleft
      by_cases hbang : first.isWord "bang" = true
      · simp [hbang]
      by_cases hstop : first.isWord "stop" = true
      · simp [hbang, hstop]
      by_cases hnumber : first.isNumber = true
      · simp [hbang, hstop, hnumber]
      · simp [hbang, hstop, hnumber]
    · by_cases hright : inlet = 1 && first.isNumber
      · simp [hleft, hright]
      · simp [hleft, hright]

/-- A delay that is armed for a deadline that has come bangs once. -/
theorem tick_of_due {due : Nat} (hdue : due ≤ here.now) :
    (Timing.delay clock milliseconds (some due)).tick here =
      { state := .delay clock milliseconds none
        sheet := here.sheet
        effects := [.send 0 [bang]] } := by
  simp only [Timing.tick, if_pos hdue]

/-- Any other tick is ignored. -/
theorem tick_of_not_due (h : ∀ due, armed? = some due → here.now < due) :
    (Timing.delay clock milliseconds armed?).tick here =
      .ignore (.delay clock milliseconds armed?) here.sheet := by
  cases armed? with
  | none => rfl
  | some due => simp only [Timing.tick, if_neg (Nat.not_le.mpr (h due rfl))]

end Clockworks

/-- A delay that is told something does what it is asked. -/
theorem Fits.received (h : delay.Fits clockwork) (here : Surroundings) (inlet : Nat) (atoms : List Atom) :
    Clockwork.entries here.now (.received inlet atoms) (clockwork.timing.receive here inlet atoms) =
        [(here.now, .received inlet atoms)] ∧
      (delay.note (here.now, .received inlet atoms)).Fits
        (clockwork.settle here.now (clockwork.timing.receive here inlet atoms)) := by
  obtain ⟨clock, htiming⟩ := h.timing
  rw [htiming, receive_eq]
  let entry : Nat × Happening := (here.now, .received inlet atoms)
  rcases horder : order? entry.2 with _ | given? | _ | given
  · rw [note_none horder rfl]
    refine ⟨rfl, ⟨clock, rfl⟩, fun due hdue => ?_⟩
    exact Multiset.mem_add.mpr (Or.inr (h.pending due hdue))
  · rw [note_start horder]
    refine ⟨rfl, ⟨clock, rfl⟩, fun due hdue => ?_⟩
    obtain rfl := Option.some.inj hdue
    refine Multiset.mem_add.mpr (Or.inl (List.mem_singleton.mpr ?_))
    rw [deadline, Nat.min_eq_left (waitOfMilliseconds_le _)]
  · rw [note_stop horder]
    exact ⟨rfl, ⟨clock, rfl⟩, nofun⟩
  · rw [note_time horder]
    refine ⟨rfl, ⟨clock, rfl⟩, fun due hdue => ?_⟩
    exact Multiset.mem_add.mpr (Or.inr (h.pending due hdue))

/-- Whatever happens to a delay, its diary is accepted, and it is as the diary tells. -/
theorem accepts_act {allowed : Sheet → Nat → Nat → Prop} (hact : Clockwork.Act allowed clockwork diary later)
    (h : delay.Fits clockwork) :
    monitor.Accepts delay diary ∧ (monitor.after delay diary).Fits later := by
  cases hact with
  | received here hsheet inlet atoms =>
    obtain ⟨hentries, hfits⟩ := h.received here inlet atoms
    rw [hentries]
    exact ⟨⟨nofun, trivial⟩, hfits⟩
  | @ticked here hsheet due rest hticks hfirst hdue hallowed =>
    obtain ⟨clock, htiming⟩ := h.timing
    rw [htiming]
    by_cases hcome : ∃ armed, delay.armed? = some armed ∧ armed ≤ here.now
    · obtain ⟨armed, harmed, hcome⟩ := hcome
      rw [harmed, tick_of_due hcome]
      refine ⟨⟨nofun, fun outlet atoms hsent => ?_, trivial⟩, ⟨clock, rfl⟩, nofun⟩
      obtain ⟨rfl, rfl⟩ := Happening.sent.inj hsent
      exact ⟨rfl, rfl, armed, harmed, hcome⟩
    · have hearly : ∀ armed, delay.armed? = some armed → here.now < armed := fun armed harmed =>
        Nat.not_le.mp fun hle => hcome ⟨armed, harmed, hle⟩
      rw [tick_of_not_due hearly]
      refine ⟨⟨nofun, trivial⟩, ⟨clock, rfl⟩, fun armed harmed => ?_⟩
      -- The tick that was taken is due already, so it is not the one for which the delay is armed.
      have hwaits := Clockwork.mem_rest_of_lt hticks hdue (h.pending armed harmed) (hearly armed harmed)
      exact Multiset.mem_add.mpr (Or.inr hwaits)
  | asked deadline =>
    exact ⟨trivial, h.timing, fun due hdue => Multiset.mem_cons_of_mem (h.pending due hdue)⟩

/-- A tick that comes when the deadline has come brings one bang. -/
theorem Fits.bangs {allowed : Sheet → Nat → Nat → Prop} (h : delay.Fits clockwork) {due moment : Nat}
    (harmed : delay.armed? = some due) (hdue : due ≤ moment) {outs : Diary}
    (hact : Clockwork.Act allowed clockwork ((moment, .ticked) :: outs) later) :
    outs = [(moment, .sent 0 [bang])] := by
  obtain ⟨here, deadline, rest, rfl, -, -, -, -, rfl⟩ := hact.exists_tick
  obtain ⟨clock, htiming⟩ := h.timing
  rw [htiming, harmed, tick_of_due hdue]
  rfl

/-- As long as it is not called and sends nothing, a delay stays armed as it is. -/
theorem armed?_after (hcalls : ∀ entry ∈ diary, isCall entry = false) (hsilent : diary.Silent) :
    (monitor.after delay diary).armed? = delay.armed? := by
  induction diary generalizing delay with
  | nil => rfl
  | cons entry rest ih =>
    obtain ⟨hcall, hrestCalls⟩ := List.forall_mem_cons.mp hcalls
    obtain ⟨hsent, hrestSilent⟩ := Diary.silent_cons.mp hsilent
    exact (ih hrestCalls hrestSilent).trans (armed?_note hcall hsent)

/-- A request arms a delay for its deadline. -/
theorem armed?_of_request {milliseconds : Float} {earlier : Diary} {time : Nat} {request : Happening}
    {given? : Option Float} (hrequest : order? request = some (.start given?)) :
    ((monitor.after ⟨milliseconds, none⟩ earlier).note (time, request)).armed? =
      some (deadline (timeAfter milliseconds earlier) time given?) := by
  have hnote : (monitor.after ⟨milliseconds, none⟩ earlier).note (time, request) = _ := note_start hrequest
  rw [hnote, milliseconds_after]

/-- A delay that is not armed sends nothing until it is called. -/
theorem silent_of_unarmed (haccepts : monitor.Accepts delay diary) (hunarmed : delay.armed? = none)
    (hcalls : ∀ entry ∈ diary, isCall entry = false) : diary.Silent := by
  induction diary generalizing delay with
  | nil => exact Diary.silent_nil
  | cons entry rest ih =>
    obtain ⟨hcall, hcalls⟩ := List.forall_mem_cons.mp hcalls
    obtain ⟨hallows, hrest⟩ := haccepts
    have hsent : entry.2.isSent = false := by
      cases hentry : entry.2 with
      | received | ticked => rfl
      | sent outlet atoms =>
        obtain ⟨-, -, due, hdue, -⟩ := hallows outlet atoms hentry
        rw [hunarmed] at hdue
        cases hdue
    refine Diary.silent_cons.mpr ⟨hsent, ih hrest ?_ hcalls⟩
    exact (armed?_note hcall hsent).trans hunarmed

/-- A delay that is armed sends one bang when the deadline has come, or none as yet and stays armed. -/
theorem bangs_once (haccepts : monitor.Accepts delay diary) {due : Nat} (harmed : delay.armed? = some due)
    (hcalls : ∀ entry ∈ diary, isCall entry = false) :
    (∃ before moment after, diary = before ++ (moment, .sent 0 [bang]) :: after ∧ due ≤ moment ∧
      Diary.Silent before ∧ Diary.Silent after) ∨
    diary.Silent ∧ (monitor.after delay diary).armed? = some due := by
  induction diary generalizing delay with
  | nil => exact Or.inr ⟨Diary.silent_nil, harmed⟩
  | cons entry rest ih =>
    obtain ⟨hcall, hrestCalls⟩ := List.forall_mem_cons.mp hcalls
    obtain ⟨hallows, hrest⟩ := haccepts
    cases hsent : entry.2.isSent with
    | true =>
      obtain ⟨moment, happening⟩ := entry
      cases happening with
      | received | ticked => cases hsent
      | sent outlet atoms =>
        obtain ⟨rfl, rfl, armed, hdue, hcome⟩ := hallows outlet atoms rfl
        obtain rfl := Option.some.inj (harmed.symm.trans hdue)
        refine Or.inl ⟨[], moment, rest, rfl, hcome, Diary.silent_nil, ?_⟩
        exact silent_of_unarmed hrest (congrArg armed? (note_sent hsent)) hrestCalls
    | false =>
      rcases ih hrest ((armed?_note hcall hsent).trans harmed) hrestCalls with
        ⟨before, moment, after, rfl, hmoment, hbefore, hafter⟩ | ⟨hsilent, hstill⟩
      · exact Or.inl ⟨entry :: before, moment, after, rfl, hmoment,
          Diary.silent_cons.mpr ⟨hsent, hbefore⟩, hafter⟩
      · exact Or.inr ⟨Diary.silent_cons.mpr ⟨hsent, hsilent⟩, hstill⟩

/-- A delay that is armed has been asked to start, and nothing has come in between. -/
theorem exists_request {milliseconds : Float} {due : Nat}
    (harmed : (monitor.after ⟨milliseconds, none⟩ diary).armed? = some due) :
    ∃ before time request given? between, diary = before ++ (time, request) :: between ∧
      order? request = some (.start given?) ∧
      due = deadline (timeAfter milliseconds before) time given? ∧
      Diary.Silent between ∧ ∀ entry ∈ between, isCall entry = false := by
  induction diary using List.reverseRecOn with
  | nil => cases harmed
  | append_singleton earlier entry ih =>
    rw [Monitor.after_append] at harmed
    set delay := monitor.after ⟨milliseconds, none⟩ earlier with hdelay
    have hmilliseconds : delay.milliseconds = timeAfter milliseconds earlier :=
      milliseconds_after ⟨milliseconds, none⟩ earlier
    replace harmed : (delay.note entry).armed? = some due := harmed
    cases hsent : entry.2.isSent with
    | true =>
      rw [note_sent hsent] at harmed
      cases harmed
    | false =>
      cases hcall : isCall entry with
      | false =>
        rw [armed?_note hcall hsent] at harmed
        obtain ⟨before, time, request, given?, between, rfl, hrequest, hdue, hsilent, hcalls⟩ := ih harmed
        exact ⟨before, time, request, given?, between ++ [entry], by simp, hrequest, hdue,
          Diary.silent_append.mpr ⟨hsilent, List.forall_mem_singleton.mpr hsent⟩,
          List.forall_mem_append.mpr ⟨hcalls, List.forall_mem_singleton.mpr hcall⟩⟩
      | true =>
        rcases order?_of_isCall hcall with ⟨given?, horder⟩ | horder
        · rw [note_start horder, hmilliseconds] at harmed
          exact ⟨earlier, entry.1, entry.2, given?, [], rfl, horder, (Option.some.inj harmed).symm,
            Diary.silent_nil, nofun⟩
        · rw [note_stop horder] at harmed
          cases harmed

/-- The diary of a delay that was not armed to begin with tells of the service it should give. -/
theorem Fits.serves {allowed : Sheet → Nat → Nat → Prop} {milliseconds : Float}
    (h : Fits ⟨milliseconds, none⟩ clockwork) (htrace : Clockwork.Trace allowed clockwork diary later) :
    Serves milliseconds diary later.ticks := by
  obtain ⟨haccepts, hfits⟩ := Monitor.accepts_of_trace accepts_act htrace h
  refine ⟨fun earlier time request given? rest heq hrequest => ?_,
    fun before time request given? between moment rest heq hrequest hcalls hsilent hcome => ?_,
    fun earlier moment outlet atoms rest heq => ?_⟩
  · subst heq
    set due := deadline (timeAfter milliseconds earlier) time given?
    have harmed : ((monitor.after ⟨milliseconds, none⟩ earlier).note (time, request)).armed? = some due :=
      armed?_of_request hrequest
    obtain ⟨-, -, hrest⟩ := monitor.accepts_append.mp haccepts
    rw [← List.takeWhile_append_dropWhile (p := fun entry => !isCall entry) (l := rest),
      Monitor.accepts_append] at hrest
    have hcalls : ∀ entry ∈ rest.takeWhile fun entry => !isCall entry, isCall entry = false :=
      fun entry hentry => by simpa using List.mem_takeWhile_imp hentry
    rcases bangs_once hrest.1 harmed hcalls with hbang | ⟨hsilent, hstill⟩
    · exact Or.inl hbang
    · refine Or.inr ⟨hsilent, fun hwhole => hfits.pending due ?_⟩
      rw [Monitor.after_append]
      rw [hwhole] at hstill
      exact hstill
  · rw [← List.cons_append, ← List.append_assoc] at heq
    subst heq
    obtain ⟨middle, _, outs, more, hmiddle, hact, rfl⟩ := htrace.exists_act_of_ticked
    have harmed : (monitor.after ⟨milliseconds, none⟩ (before ++ (time, request) :: between)).armed? =
        some (deadline (timeAfter milliseconds before) time given?) := by
      rw [Monitor.after_append]
      exact (armed?_after hcalls hsilent).trans (armed?_of_request hrequest)
    have hbangs := (Monitor.accepts_of_trace accepts_act hmiddle h).2.bangs harmed hcome hact
    exact ⟨more, hbangs ▸ rfl⟩
  · subst heq
    obtain ⟨-, hallows, -⟩ := monitor.accepts_append.mp haccepts
    obtain ⟨houtlet, hatoms, due, harmed, hcome⟩ := hallows outlet atoms rfl
    obtain ⟨before, time, request, given?, between, hsplit, hrequest, rfl, hsilent, hcalls⟩ :=
      exists_request harmed
    exact ⟨houtlet, hatoms, before, time, request, given?, between, hsplit, hrequest, hcome, hsilent,
      hcalls⟩

end Delay

end Patchbay
