import Patchbay.Proofs.Box.Clockwork
import Mathlib.Data.List.Induction
import Mathlib.Data.List.TakeWhile

/-!
# A metronome keeps its pace

What a metronome does told by its diary alone. It bangs when it is started, and from then on once for
every deadline, each of which lies an interval after the one before, until it is started anew or stopped.
Ticks that were asked for earlier bring a bang only in the place of the tick that is due. What carries
this is that the deadline for which a metronome is armed is always that of a tick that waits, and that a
tick is taken less than an interval after its deadline.
-/

namespace Patchbay

/-- What a metronome has to know: its attributes, the deadline for which it is armed, and when it was
started as long as the bang with which it starts has still to come. -/
structure Metronome where
  sheet : Sheet
  armed? : Option Nat := none
  begun? : Option Nat := none

namespace Metronome

/-- What a message asks of a metronome. -/
inductive Order where
  | start
  | stop
  | interval (given : Atom)

/-- What is asked of a metronome. -/
def order? : Happening → Option Order
  | .received inlet (first :: _) =>
    if inlet = 1 then if first.isNumber then some (.interval first) else none
    else if first.isWord "bang" || first.isWord "start" then some .start
    else if first.isWord "stop" then some .stop
    else if first.isNumber then some (if first.toDouble == 0.0 then .stop else .start)
    else none
  | _ => none

/-- Decide whether a metronome is asked to start. -/
def isStart (entry : Nat × Happening) : Bool :=
  match order? entry.2 with
  | some .start => true
  | _ => false

/-- Decide whether a metronome is asked to start or to stop. -/
def isCall (entry : Nat × Happening) : Bool :=
  match order? entry.2 with
  | some .start | some .stop => true
  | _ => false

/-- The attributes after an interval has been given. -/
def withInterval (sheet : Sheet) (given : Atom) : Sheet :=
  (sheet.store? Timing.intervalName [given] false).getD sheet

/-- The attributes after all intervals that have been given. -/
def sheetAfter (sheet : Sheet) (diary : Diary) : Sheet :=
  diary.foldl (fun sheet entry =>
    match order? entry.2 with
    | some (.interval given) => withInterval sheet given
    | _ => sheet) sheet

/-- Follow the bangs of a running metronome from the deadline that is ahead. Each bang has to come when
its deadline has come, and before the one that follows; that lies an interval later, as the interval is at
that moment. The result is the deadline that is ahead in the end. -/
def follow? : Nat → Sheet → Diary → Option Nat
  | due, _, [] => some due
  | due, sheet, entry :: rest =>
    let next := due + Timing.interval sheet
    if entry.2.isSent then
      if due ≤ entry.1 ∧ entry.1 < next then follow? next sheet rest else none
    else follow? due (sheetAfter sheet [entry]) rest

/-- A tick is taken in time if it is less than an interval late. -/
def InTime (sheet : Sheet) (deadline now : Nat) : Prop := now < deadline + Timing.interval sheet

/-- A diary in which a metronome does as it should. It had attributes to begin with and was not armed; at
the end it may be armed, and ticks wait for it. -/
structure Keeps (sheet : Sheet) (diary : Diary) (armed? : Option Nat) (waiting : Multiset Nat) : Prop where
  /-- When it is started it bangs at once, and then once for each deadline until the next call. If there is
  none, it is armed for the deadline that is ahead, and the tick for that waits. -/
  running : ∀ earlier time request rest,
    diary = earlier ++ (time, request) :: rest → order? request = some .start →
    ∃ more next, rest = (time, .sent 0 [bang]) :: more ∧
      follow? (time + Timing.interval (sheetAfter sheet earlier)) (sheetAfter sheet earlier)
        (more.takeWhile fun entry => !isCall entry) = some next ∧
      ((more.takeWhile fun entry => !isCall entry) = more → armed? = some next ∧ next ∈ waiting)
  /-- A tick brings the bang at once if the deadline that is ahead has come and there has been no call since
  the start, whatever the tick was asked for. -/
  prompt : ∀ before time request between due moment rest,
    diary = before ++ (time, request) :: (time, .sent 0 [bang]) :: (between ++ (moment, .ticked) :: rest) →
    order? request = some .start → (∀ entry ∈ between, isCall entry = false) →
    follow? (time + Timing.interval (sheetAfter sheet before)) (sheetAfter sheet before) between = some due →
    due ≤ moment → ∃ more, rest = (moment, .sent 0 [bang]) :: more
  /-- When it is stopped it is silent until it is started again. -/
  halted : ∀ earlier time request rest,
    diary = earlier ++ (time, request) :: rest → order? request = some .stop →
    Diary.Silent (rest.takeWhile fun entry => !isStart entry) ∧
      ((rest.takeWhile fun entry => !isStart entry) = rest → armed? = none)
  /-- Whatever is sent is a bang, after a start and with no call since. -/
  asked : ∀ earlier moment outlet atoms rest,
    diary = earlier ++ (moment, .sent outlet atoms) :: rest →
    outlet = 0 ∧ atoms = [bang] ∧ ∃ before time request between,
      earlier = before ++ (time, request) :: between ∧ order? request = some .start ∧
        ∀ entry ∈ between, isCall entry = false
  /-- If it has never been started it is not armed. -/
  idle : (∀ entry ∈ diary, isStart entry = false) → armed? = none

/-- What a metronome knows after something has happened. -/
def note (metronome : Metronome) (entry : Nat × Happening) : Metronome :=
  match order? entry.2 with
  | some .start =>
    { metronome with
      armed? := some (entry.1 + Timing.interval metronome.sheet)
      begun? := some entry.1 }
  | some .stop => { metronome with armed? := none, begun? := none }
  | some (.interval given) => { metronome with sheet := withInterval metronome.sheet given }
  | none =>
    if entry.2.isSent then
      match metronome.begun? with
      | some _ => { metronome with begun? := none }
      | none =>
        { metronome with armed? := metronome.armed?.map (· + Timing.interval metronome.sheet) }
    else metronome

/-- A metronome sends bangs only, and only when it is armed: at once when it has been started, and before
anything else happens, or else in time for its deadline. -/
def monitor : Monitor Metronome where
  note := note
  allows metronome entry :=
    (entry.2.isSent = false → metronome.begun? = none) ∧
    ∀ outlet atoms, entry.2 = .sent outlet atoms → outlet = 0 ∧ atoms = [bang] ∧
      ∃ due, metronome.armed? = some due ∧
        (∀ start, metronome.begun? = some start → entry.1 = start) ∧
        (metronome.begun? = none → due ≤ entry.1 ∧ entry.1 < due + Timing.interval metronome.sheet)

/-- A clockwork is a metronome that knows this, and the tick for which it is armed waits. -/
structure Fits (metronome : Metronome) (clockwork : Clockwork) : Prop where
  timing : ∃ clock, clockwork.timing = .metro clock metronome.armed?
  sheet : clockwork.sheet = metronome.sheet
  settled : metronome.begun? = none
  pending : ∀ due, metronome.armed? = some due → due ∈ clockwork.ticks

variable {metronome : Metronome} {clockwork later : Clockwork} {diary : Diary}

section Entries

variable {entry : Nat × Happening}

theorem note_start (h : order? entry.2 = some .start) : metronome.note entry =
    { metronome with
      armed? := some (entry.1 + Timing.interval metronome.sheet)
      begun? := some entry.1 } := by
  simp only [note, h]

theorem note_stop (h : order? entry.2 = some .stop) :
    metronome.note entry = { metronome with armed? := none, begun? := none } := by
  simp only [note, h]

theorem note_interval {given : Atom} (h : order? entry.2 = some (.interval given)) :
    metronome.note entry = { metronome with sheet := withInterval metronome.sheet given } := by
  simp only [note, h]

theorem note_none (h : order? entry.2 = none) (hsent : entry.2.isSent = false) :
    metronome.note entry = metronome := by
  simp [note, h, hsent]

theorem order?_of_isSent (h : entry.2.isSent = true) : order? entry.2 = none := by
  obtain ⟨time, happening⟩ := entry
  cases happening with
  | sent => rfl
  | received | ticked => cases h

/-- The bang with which a metronome starts leaves it armed as it is. -/
theorem note_first {start : Nat} (h : entry.2.isSent = true) (hbegun : metronome.begun? = some start) :
    metronome.note entry = { metronome with begun? := none } := by
  simp [note, order?_of_isSent h, h, hbegun]

/-- Any other bang arms it for the next deadline. -/
theorem note_beat (h : entry.2.isSent = true) (hbegun : metronome.begun? = none) :
    metronome.note entry =
      { metronome with armed? := metronome.armed?.map (· + Timing.interval metronome.sheet) } := by
  simp [note, order?_of_isSent h, h, hbegun]

/-- Whoever calls asks to start or to stop. -/
theorem order?_of_isCall (h : isCall entry = true) :
    order? entry.2 = some .start ∨ order? entry.2 = some .stop := by
  unfold isCall at h
  split at h
  · next horder => exact Or.inl horder
  · next horder => exact Or.inr horder
  · cases h

/-- What is no call and sends nothing leaves a metronome armed as it is. -/
theorem armed?_note (hcall : isCall entry = false) (hsent : entry.2.isSent = false) :
    (metronome.note entry).armed? = metronome.armed? ∧
      (metronome.note entry).begun? = metronome.begun? := by
  rcases horder : order? entry.2 with _ | _ | _ | _
  · rw [note_none horder hsent]
    exact ⟨rfl, rfl⟩
  · simp [isCall, horder] at hcall
  · simp [isCall, horder] at hcall
  · rw [note_interval horder]
    exact ⟨rfl, rfl⟩

/-- The attributes change only when an interval is given. -/
theorem sheet_note (metronome : Metronome) (entry : Nat × Happening) :
    (metronome.note entry).sheet = sheetAfter metronome.sheet [entry] := by
  simp only [note, sheetAfter, List.foldl_cons, List.foldl_nil]
  cases order? entry.2 with
  | none =>
    dsimp only
    split
    · split <;> rfl
    · rfl
  | some order => cases order <;> rfl

end Entries

/-- The monitor knows the attributes. -/
theorem sheet_after (metronome : Metronome) (diary : Diary) :
    (monitor.after metronome diary).sheet = sheetAfter metronome.sheet diary := by
  induction diary generalizing metronome with
  | nil => rfl
  | cons entry rest ih =>
    exact (ih (metronome.note entry)).trans
      (congrArg (fun sheet => sheetAfter sheet rest) (sheet_note metronome entry))

section Clockworks

variable {clock : Nat} {armed? : Option Nat} {here : Surroundings}

theorem interval_le (sheet : Sheet) : Timing.interval sheet ≤ longestWait := waitOfMilliseconds_le _

/-- What a metronome does with a message. -/
theorem receive_eq (inlet : Nat) (atoms : List Atom) :
    (Timing.metro clock armed?).receive here inlet atoms =
      match order? (.received inlet atoms) with
      | some .start => Timing.startMetro here clock
      | some .stop => { state := .metro clock none, sheet := here.sheet }
      | some (.interval given) =>
        { state := .metro clock armed?, sheet := withInterval here.sheet given }
      | none => .ignore (.metro clock armed?) here.sheet := by
  cases atoms with
  | nil => rfl
  | cons first rest =>
    simp only [Timing.receive, order?]
    by_cases hright : inlet = 1
    · by_cases hnumber : first.isNumber = true
      · simp [hright, hnumber, withInterval]
      · simp [hright, hnumber]
    by_cases hstart : first.isWord "bang" || first.isWord "start"
    · simp [hright, hstart]
    by_cases hstop : first.isWord "stop" = true
    · simp [hright, hstart, hstop]
    by_cases hnumber : first.isNumber = true
    · by_cases hzero : (first.toDouble == 0.0) = true
      · simp [hright, hstart, hstop, hnumber, hzero]
      · simp [hright, hstart, hstop, hnumber, hzero]
    · simp [hright, hstart, hstop, hnumber]

/-- A metronome that is armed for a deadline that has come, and is not late, bangs and is armed for the
next one. -/
theorem tick_of_due {due : Nat} (hdue : due ≤ here.now)
    (hlate : here.now < due + Timing.interval here.sheet) :
    (Timing.metro clock (some due)).tick here =
      { state := .metro clock (some (due + Timing.interval here.sheet))
        sheet := here.sheet
        effects := [.tickAfter clock (due + Timing.interval here.sheet - here.now),
          .send 0 [bang]] } := by
  simp only [Timing.tick, if_pos hdue, if_neg (Nat.not_le.mpr hlate)]

/-- A tick that comes when no deadline has come is ignored. -/
theorem tick_of_not_due (h : ∀ due, armed? = some due → here.now < due) :
    (Timing.metro clock armed?).tick here = .ignore (.metro clock armed?) here.sheet := by
  cases armed? with
  | none => rfl
  | some due => simp only [Timing.tick, if_neg (Nat.not_le.mpr (h due rfl))]

end Clockworks

/-- A metronome that is told something does what it is asked. -/
theorem Fits.received (h : metronome.Fits clockwork) {here : Surroundings}
    (hsheet : here.sheet = clockwork.sheet) (inlet : Nat) (atoms : List Atom) :
    monitor.Accepts metronome (Clockwork.entries here.now (.received inlet atoms)
        (clockwork.timing.receive here inlet atoms)) ∧
      (monitor.after metronome (Clockwork.entries here.now (.received inlet atoms)
        (clockwork.timing.receive here inlet atoms))).Fits
        (clockwork.settle here.now (clockwork.timing.receive here inlet atoms)) := by
  obtain ⟨clock, htiming⟩ := h.timing
  have hknown : here.sheet = metronome.sheet := hsheet.trans h.sheet
  have hpending : ∀ (added : Multiset Nat) due, metronome.armed? = some due →
      due ∈ added + clockwork.ticks :=
    fun added due hdue => Multiset.mem_add.mpr (Or.inr (h.pending due hdue))
  set message : Nat × Happening := (here.now, .received inlet atoms) with hmessage
  have hallows : monitor.allows metronome message := ⟨fun _ => h.settled, nofun⟩
  rw [htiming, receive_eq]
  rcases horder : order? (.received inlet atoms) with _ | _ | _ | given
  · have hnote : metronome.note message = metronome := note_none horder rfl
    refine ⟨⟨hallows, trivial⟩, ?_⟩
    show (metronome.note message).Fits _
    rw [hnote]
    exact ⟨⟨clock, rfl⟩, hknown, h.settled, hpending _⟩
  · have hnote : metronome.note message =
        { metronome with
          armed? := some (here.now + Timing.interval metronome.sheet)
          begun? := some here.now } := note_start horder
    have hfirst : (metronome.note message).note (here.now, .sent 0 [bang]) =
        { metronome with
          armed? := some (here.now + Timing.interval metronome.sheet)
          begun? := none } := by
      rw [hnote]
      exact note_first rfl rfl
    refine ⟨⟨hallows, ⟨nofun, fun outlet atoms hsent => ?_⟩, trivial⟩, ?_⟩
    · obtain ⟨rfl, rfl⟩ := Happening.sent.inj hsent
      refine ⟨rfl, rfl, _, congrArg armed? hnote, fun start hstart => ?_, fun hnone => ?_⟩
      · exact Option.some.inj ((congrArg begun? hnote).symm.trans hstart)
      · cases (congrArg begun? hnote).symm.trans hnone
    · show ((metronome.note message).note (here.now, .sent 0 [bang])).Fits _
      rw [hfirst, ← hknown]
      refine ⟨⟨clock, rfl⟩, rfl, rfl, fun due hdue => ?_⟩
      obtain rfl := Option.some.inj hdue
      refine Multiset.mem_add.mpr (Or.inl (List.mem_singleton.mpr ?_))
      rw [Nat.min_eq_left (interval_le _)]
  · have hnote : metronome.note message = { metronome with armed? := none, begun? := none } :=
      note_stop horder
    refine ⟨⟨hallows, trivial⟩, ?_⟩
    show (metronome.note message).Fits _
    rw [hnote]
    exact ⟨⟨clock, rfl⟩, hknown, rfl, nofun⟩
  · have hnote : metronome.note message =
        { metronome with sheet := withInterval metronome.sheet given } := note_interval horder
    refine ⟨⟨hallows, trivial⟩, ?_⟩
    show (metronome.note message).Fits _
    rw [hnote]
    exact ⟨⟨clock, rfl⟩, congrArg (withInterval · given) hknown, h.settled, hpending _⟩

/-- When a tick is taken in time, it is not too late for the deadline for which the metronome is armed: the
tick for that waits, so the one that is taken is due no later. -/
theorem Fits.intime (h : metronome.Fits clockwork) {here : Surroundings}
    (hsheet : here.sheet = clockwork.sheet) {deadline due : Nat} {rest : Multiset Nat}
    (hticks : clockwork.ticks = deadline ::ₘ rest) (hfirst : ∀ other ∈ rest, deadline ≤ other)
    (hlate : InTime clockwork.sheet deadline here.now) (harmed : metronome.armed? = some due) :
    here.now < due + Timing.interval here.sheet := by
  have hle : deadline ≤ due := by
    have hmem := h.pending due harmed
    rw [hticks, Multiset.mem_cons] at hmem
    rcases hmem with rfl | hmem
    · exact Nat.le_refl _
    · exact hfirst due hmem
  rw [InTime, ← hsheet] at hlate
  omega

/-- A tick that comes when the deadline has come brings one bang. -/
theorem Fits.bangs (h : metronome.Fits clockwork) {due moment : Nat}
    (harmed : metronome.armed? = some due) (hdue : due ≤ moment) {outs : Diary}
    (hact : Clockwork.Act InTime clockwork ((moment, .ticked) :: outs) later) :
    outs = [(moment, .sent 0 [bang])] := by
  obtain ⟨here, deadline, rest, rfl, hsheet, hticks, hfirst, hlate, rfl⟩ := hact.exists_tick
  obtain ⟨clock, htiming⟩ := h.timing
  rw [htiming, harmed, tick_of_due hdue (h.intime hsheet hticks hfirst hlate harmed)]
  rfl

/-- A metronome of which a tick is taken in time bangs if its deadline has come, and not otherwise. -/
theorem Fits.ticked (h : metronome.Fits clockwork) {here : Surroundings}
    (hsheet : here.sheet = clockwork.sheet) {deadline : Nat} {rest : Multiset Nat}
    (hticks : clockwork.ticks = deadline ::ₘ rest) (hfirst : ∀ other ∈ rest, deadline ≤ other)
    (hdue : deadline ≤ here.now) (hlate : InTime clockwork.sheet deadline here.now) :
    monitor.Accepts metronome (Clockwork.entries here.now .ticked (clockwork.timing.tick here)) ∧
      (monitor.after metronome
        (Clockwork.entries here.now .ticked (clockwork.timing.tick here))).Fits
        (Clockwork.settle { clockwork with ticks := rest } here.now (clockwork.timing.tick here)) := by
  obtain ⟨clock, htiming⟩ := h.timing
  have hknown : here.sheet = metronome.sheet := hsheet.trans h.sheet
  have hnote : metronome.note (here.now, .ticked) = metronome := note_none rfl rfl
  have hallows : monitor.allows metronome (here.now, .ticked) := ⟨fun _ => h.settled, nofun⟩
  rw [htiming]
  by_cases hcome : ∃ due, metronome.armed? = some due ∧ due ≤ here.now
  · obtain ⟨due, harmed, hcome⟩ := hcome
    have hintime := h.intime hsheet hticks hfirst hlate harmed
    have hwait := interval_le here.sheet
    have hbeat : metronome.note (here.now, .sent 0 [bang]) =
        { metronome with armed? := some (due + Timing.interval here.sheet) } := by
      rw [note_beat rfl h.settled, harmed, hknown]
      rfl
    rw [harmed, tick_of_due hcome hintime]
    refine ⟨⟨hallows, ⟨nofun, fun outlet atoms hsent => ?_⟩, trivial⟩, ?_⟩
    · obtain ⟨rfl, rfl⟩ := Happening.sent.inj hsent
      rw [show monitor.note metronome (here.now, .ticked) = metronome from hnote]
      refine ⟨rfl, rfl, due, harmed, fun start hstart => ?_, fun _ => ?_⟩
      · cases h.settled.symm.trans hstart
      · exact ⟨hcome, hknown ▸ hintime⟩
    · show ((metronome.note (here.now, .ticked)).note (here.now, .sent 0 [bang])).Fits _
      rw [hnote, hbeat]
      refine ⟨⟨clock, rfl⟩, hknown, h.settled, fun next hnext => ?_⟩
      obtain rfl := Option.some.inj hnext
      refine Multiset.mem_add.mpr (Or.inl (List.mem_singleton.mpr ?_))
      omega
  · have hearly : ∀ due, metronome.armed? = some due → here.now < due := fun due harmed =>
      Nat.not_le.mp fun hle => hcome ⟨due, harmed, hle⟩
    rw [tick_of_not_due hearly]
    refine ⟨⟨hallows, trivial⟩, ?_⟩
    show (metronome.note (here.now, .ticked)).Fits _
    rw [hnote]
    refine ⟨⟨clock, rfl⟩, hknown, h.settled, fun due harmed => ?_⟩
    -- The tick that was taken is due already, so it is not the one for which the metronome is armed.
    have hwaits := Clockwork.mem_rest_of_lt hticks hdue (h.pending due harmed) (hearly due harmed)
    exact Multiset.mem_add.mpr (Or.inr hwaits)

/-- Whatever happens to a metronome of which ticks are taken in time, its diary is accepted, and it is as
the diary tells. -/
theorem accepts_act (hact : Clockwork.Act InTime clockwork diary later) (h : metronome.Fits clockwork) :
    monitor.Accepts metronome diary ∧ (monitor.after metronome diary).Fits later := by
  cases hact with
  | received here hsheet inlet atoms => exact h.received hsheet inlet atoms
  | ticked here hsheet hticks hfirst hdue hlate => exact h.ticked hsheet hticks hfirst hdue hlate
  | asked deadline =>
    exact ⟨trivial, h.timing, h.sheet, h.settled,
      fun due hdue => Multiset.mem_cons_of_mem (h.pending due hdue)⟩

/-- A metronome that has been started bangs before anything else happens. -/
theorem bangs_first (haccepts : monitor.Accepts metronome diary) {start : Nat}
    (hbegun : metronome.begun? = some start) (hsettled : (monitor.after metronome diary).begun? = none) :
    ∃ more, diary = (start, .sent 0 [bang]) :: more ∧
      monitor.Accepts (monitor.note metronome (start, .sent 0 [bang])) more := by
  cases diary with
  | nil => cases hbegun.symm.trans hsettled
  | cons entry more =>
    obtain ⟨hallows, hmore⟩ := haccepts
    obtain ⟨moment, happening⟩ := entry
    cases happening with
    | received | ticked => cases hbegun.symm.trans (hallows.1 rfl)
    | sent outlet atoms =>
      obtain ⟨rfl, rfl, -, -, hstart, -⟩ := hallows.2 outlet atoms rfl
      obtain rfl : moment = start := hstart start hbegun
      exact ⟨more, rfl, hmore⟩

/-- A metronome that is armed bangs once for every deadline as long as it is not called. -/
theorem follows (haccepts : monitor.Accepts metronome diary) {due : Nat}
    (harmed : metronome.armed? = some due) (hsettled : metronome.begun? = none)
    (hcalls : ∀ entry ∈ diary, isCall entry = false) :
    ∃ next, follow? due metronome.sheet diary = some next ∧
      (monitor.after metronome diary).armed? = some next := by
  induction diary generalizing metronome due with
  | nil => exact ⟨due, rfl, harmed⟩
  | cons entry rest ih =>
    obtain ⟨hcall, hrestCalls⟩ := List.forall_mem_cons.mp hcalls
    obtain ⟨hallows, hrest⟩ := haccepts
    cases hsent : entry.2.isSent with
    | true =>
      have hnote := note_beat hsent hsettled
      have hintime : due ≤ entry.1 ∧ entry.1 < due + Timing.interval metronome.sheet := by
        obtain ⟨moment, happening⟩ := entry
        cases happening with
        | received | ticked => cases hsent
        | sent outlet atoms =>
          obtain ⟨-, -, armed, hdue, -, hcome⟩ := hallows.2 outlet atoms rfl
          obtain rfl := Option.some.inj (harmed.symm.trans hdue)
          exact hcome hsettled
      have hnext : (metronome.note entry).armed? = some (due + Timing.interval metronome.sheet) := by
        rw [hnote, harmed]
        rfl
      have hnextSettled : (metronome.note entry).begun? = none := by rw [hnote, hsettled]
      obtain ⟨next, hfollow, hlast⟩ := ih hrest hnext hnextSettled hrestCalls
      rw [show monitor.note metronome entry = _ from hnote] at hfollow
      refine ⟨next, ?_, hlast⟩
      rw [follow?, if_pos hsent, if_pos hintime]
      exact hfollow
    | false =>
      have ⟨hsame, hstill⟩ : (metronome.note entry).armed? = metronome.armed? ∧
          (metronome.note entry).begun? = metronome.begun? := armed?_note hcall hsent
      obtain ⟨next, hfollow, hlast⟩ := ih hrest (hsame.trans harmed) (hstill.trans hsettled) hrestCalls
      refine ⟨next, ?_, hlast⟩
      rw [follow?, if_neg (by simp [hsent]), ← sheet_note]
      exact hfollow

/-- So does one that has been started, from its first bang on. -/
theorem follows_start {sheet : Sheet} {before between : Diary} {time : Nat} {request : Happening}
    (hrequest : order? request = some .start)
    (haccepts : monitor.Accepts { sheet := sheet }
      (before ++ (time, request) :: (time, .sent 0 [bang]) :: between))
    (hcalls : ∀ entry ∈ between, isCall entry = false) :
    ∃ next, follow? (time + Timing.interval (sheetAfter sheet before)) (sheetAfter sheet before) between =
        some next ∧
      (monitor.after { sheet := sheet }
        (before ++ (time, request) :: (time, .sent 0 [bang]) :: between)).armed? = some next := by
  set metronome := monitor.after { sheet := sheet } before with hmetronome
  have hsheet : metronome.sheet = sheetAfter sheet before := sheet_after _ _
  have hnote : metronome.note (time, request) = _ := note_start hrequest
  have hfirst : monitor.note (monitor.note metronome (time, request)) (time, .sent 0 [bang]) =
      { metronome with
        armed? := some (time + Timing.interval metronome.sheet)
        begun? := none } := by
    show (metronome.note (time, request)).note (time, .sent 0 [bang]) = _
    rw [hnote]
    exact note_first rfl rfl
  obtain ⟨-, -, -, hrest⟩ := monitor.accepts_append.mp haccepts
  rw [← hmetronome, hfirst] at hrest
  obtain ⟨next, hfollow, hlast⟩ := follows hrest rfl rfl hcalls
  refine ⟨next, hsheet ▸ hfollow, ?_⟩
  rw [Monitor.after_append, ← hmetronome]
  show (monitor.after (monitor.note (monitor.note metronome (time, request)) (time, .sent 0 [bang]))
    between).armed? = some next
  rw [hfirst]
  exact hlast

/-- A metronome that is not armed sends nothing until it is started. -/
theorem silent_of_unarmed (haccepts : monitor.Accepts metronome diary) (hunarmed : metronome.armed? = none)
    (hstarts : ∀ entry ∈ diary, isStart entry = false) :
    diary.Silent ∧ (monitor.after metronome diary).armed? = none := by
  induction diary generalizing metronome with
  | nil => exact ⟨Diary.silent_nil, hunarmed⟩
  | cons entry rest ih =>
    obtain ⟨hstart, hrestStarts⟩ := List.forall_mem_cons.mp hstarts
    obtain ⟨hallows, hrest⟩ := haccepts
    have hsent : entry.2.isSent = false := by
      cases hentry : entry.2 with
      | received | ticked => rfl
      | sent outlet atoms =>
        obtain ⟨-, -, due, hdue, -⟩ := hallows.2 outlet atoms hentry
        rw [hunarmed] at hdue
        cases hdue
    have hstill : (metronome.note entry).armed? = none := by
      cases hcall : isCall entry with
      | false => exact (armed?_note hcall hsent).1.trans hunarmed
      | true =>
        rcases order?_of_isCall hcall with horder | horder
        · simp [isStart, horder] at hstart
        · rw [note_stop horder]
    obtain ⟨hsilent, hlast⟩ := ih hrest hstill hrestStarts
    exact ⟨Diary.silent_cons.mpr ⟨hsent, hsilent⟩, hlast⟩

/-- A metronome that is armed has been started, and has not been called since. -/
theorem exists_start {sheet : Sheet} {due : Nat}
    (harmed : (monitor.after { sheet := sheet } diary).armed? = some due) :
    ∃ before time request between, diary = before ++ (time, request) :: between ∧
      order? request = some .start ∧ ∀ entry ∈ between, isCall entry = false := by
  induction diary using List.reverseRecOn generalizing due with
  | nil => cases harmed
  | append_singleton earlier entry ih =>
    rw [Monitor.after_append] at harmed
    set metronome := monitor.after { sheet := sheet } earlier
    replace harmed : (metronome.note entry).armed? = some due := harmed
    cases hcall : isCall entry with
    | true =>
      rcases order?_of_isCall hcall with horder | horder
      · exact ⟨earlier, entry.1, entry.2, [], rfl, horder, nofun⟩
      · rw [note_stop horder] at harmed
        cases harmed
    | false =>
      -- Whatever is no call finds the metronome armed already.
      have hbefore : ∃ earlierDue, metronome.armed? = some earlierDue := by
        cases hsent : entry.2.isSent with
        | false => exact ⟨due, (armed?_note hcall hsent).1.symm.trans harmed⟩
        | true =>
          cases hbegun : metronome.begun? with
          | some start =>
            rw [note_first hsent hbegun] at harmed
            exact ⟨due, harmed⟩
          | none =>
            rw [note_beat hsent hbegun] at harmed
            obtain ⟨earlierDue, hearlier, -⟩ := Option.map_eq_some_iff.mp harmed
            exact ⟨earlierDue, hearlier⟩
      obtain ⟨earlierDue, hearlier⟩ := hbefore
      obtain ⟨before, time, request, between, rfl, hrequest, hcalls⟩ := ih hearlier
      exact ⟨before, time, request, between ++ [entry], by simp, hrequest,
        List.forall_mem_append.mpr ⟨hcalls, List.forall_mem_singleton.mpr hcall⟩⟩

/-- The diary of a metronome that was not armed to begin with, and of which ticks were taken in time,
tells of the pace it should keep. -/
theorem Fits.keeps {sheet : Sheet} (h : Fits { sheet := sheet } clockwork)
    (htrace : Clockwork.Trace InTime clockwork diary later) :
    ∃ armed?, (∃ clock, later.timing = .metro clock armed?) ∧
      later.sheet = sheetAfter sheet diary ∧ Keeps sheet diary armed? later.ticks := by
  obtain ⟨haccepts, hfits⟩ := Monitor.accepts_of_trace accepts_act htrace h
  refine ⟨(monitor.after { sheet := sheet } diary).armed?, hfits.timing,
    hfits.sheet.trans (sheet_after _ _), ?_, ?_, ?_, ?_, fun hstarts => ?_⟩
  · rintro earlier time request rest rfl hrequest
    have hnote : (monitor.after { sheet := sheet } earlier).note (time, request) = _ := note_start hrequest
    obtain ⟨hearlier, hallows, hrest⟩ := monitor.accepts_append.mp haccepts
    obtain ⟨more, rfl, hmore⟩ := bangs_first hrest (congrArg begun? hnote) (by
      have hsettled := hfits.settled
      rwa [Monitor.after_append] at hsettled)
    set quiet := more.takeWhile fun entry => !isCall entry
    have hcalls : ∀ entry ∈ quiet, isCall entry = false := fun entry hentry => by
      simpa using List.mem_takeWhile_imp hentry
    have hstart : monitor.Accepts { sheet := sheet }
        (earlier ++ (time, request) :: (time, .sent 0 [bang]) :: quiet) := by
      refine monitor.accepts_append.mpr ⟨hearlier, hallows, hrest.1, ?_⟩
      rw [← List.takeWhile_append_dropWhile (p := fun entry => !isCall entry) (l := more),
        Monitor.accepts_append] at hmore
      exact hmore.1
    obtain ⟨next, hfollow, harmed⟩ := follows_start hrequest hstart hcalls
    refine ⟨more, next, rfl, hfollow, fun hwhole => ?_⟩
    rw [show quiet = more from hwhole] at harmed
    exact ⟨harmed, hfits.pending next harmed⟩
  · intro before time request between due moment rest heq hrequest hcalls hfollow hcome
    rw [← List.cons_append, ← List.cons_append, ← List.append_assoc] at heq
    subst heq
    obtain ⟨middle, _, outs, more, hmiddle, hact, rfl⟩ := htrace.exists_act_of_ticked
    obtain ⟨hearlier, hmiddleFits⟩ := Monitor.accepts_of_trace accepts_act hmiddle h
    obtain ⟨next, hnext, harmed⟩ := follows_start hrequest hearlier hcalls
    obtain rfl := Option.some.inj (hfollow.symm.trans hnext)
    exact ⟨more, hmiddleFits.bangs harmed hcome hact ▸ rfl⟩
  · rintro earlier time request rest rfl hrequest
    set metronome := monitor.after { sheet := sheet } earlier
    have hnote : metronome.note (time, request) = _ := note_stop hrequest
    obtain ⟨-, -, hrest⟩ := monitor.accepts_append.mp haccepts
    rw [← List.takeWhile_append_dropWhile (p := fun entry => !isStart entry) (l := rest),
      Monitor.accepts_append] at hrest
    obtain ⟨hsilent, hlast⟩ := silent_of_unarmed hrest.1 (congrArg armed? hnote) fun entry hentry => by
      simpa using List.mem_takeWhile_imp hentry
    refine ⟨hsilent, fun hwhole => ?_⟩
    rw [hwhole] at hlast
    rw [Monitor.after_append]
    exact hlast
  · rintro earlier moment outlet atoms rest rfl
    obtain ⟨-, hallows, -⟩ := monitor.accepts_append.mp haccepts
    obtain ⟨houtlet, hatoms, due, harmed, -⟩ := hallows.2 outlet atoms rfl
    exact ⟨houtlet, hatoms, exists_start harmed⟩
  · exact (silent_of_unarmed haccepts rfl hstarts).2

end Metronome

end Patchbay
