import Patchbay.Proofs.Timeline.Happenings

/-!
# Tasks that are due

A task that is due is started after a number of moves that is known beforehand, however many tasks are
submitted meanwhile, unless the worker is told to leave before. The letters ahead of it in the inbox each
cost a round. Once it is in the queue the next round starts it, since a task that is due ahead of it is
started on the same round, and a letter that comes in between puts at most one task ahead of it.
-/

namespace Patchbay.Timekeeper

/-- A bound on the moves to make before a round starts a task of the queue that is due, apart from those
that start the tasks ahead of it. The worker may have looked at the clock before it was due. -/
def Stage.delay {τ : Type} (entry : Timed τ) : Stage → Nat
  | .looking => 2
  | .starting time => if entry.deadline ≤ time then 1 else 5
  | .waiting => 4
  | .gone => 0

variable {τ : Type} {keeper later : Timekeeper τ} {happening : Happening τ} {log : List (Happening τ)}
  {queue : List (Timed τ)} {entry : Timed τ} {bound : Nat}

/-- A task that waits, with a bound on the moves to make until it is started when it is due. -/
inductive Near (keeper : Timekeeper τ) (entry : Timed τ) : Nat → Prop where
  | sent {before rest : List (Letter τ)} (hinbox : keeper.inbox = before ++ .task entry :: rest) :
    Near keeper entry (keeper.effortFor (before.length + 1))
  | queued {ahead rest : List (Timed τ)} (hqueue : keeper.queue = ahead ++ entry :: rest) :
    Near keeper entry (ahead.length + keeper.stage.delay entry)

/-- A bound for all tasks that wait. -/
def patience (keeper : Timekeeper τ) : Nat := 9 * keeper.inbox.length + 6 * keeper.queue.length + 5

theorem mem_sent {inbox : List (Letter τ)} : entry ∈ sent inbox ↔ .task entry ∈ inbox := by
  induction inbox with
  | nil => simp [sent]
  | cons letter rest ih => cases letter <;> simp [sent, ih]

theorem exists_near (h : entry ∈ keeper.waiting) : ∃ bound ≤ keeper.patience, Near keeper entry bound := by
  rcases List.mem_append.mp h with hqueue | hsent
  · obtain ⟨ahead, rest, hqueue⟩ := List.append_of_mem hqueue
    refine ⟨_, ?_, .queued hqueue⟩
    have hdelay : keeper.stage.delay entry ≤ 5 := by
      unfold Stage.delay
      split <;> try omega
      split <;> omega
    have hlength := congrArg List.length hqueue
    rw [List.length_append, List.length_cons] at hlength
    rw [patience]
    omega
  · obtain ⟨before, rest, hinbox⟩ := List.append_of_mem (mem_sent.mp hsent)
    refine ⟨_, ?_, .sent hinbox⟩
    have hlength := congrArg List.length hinbox
    rw [List.length_append, List.length_cons] at hlength
    have hleft : keeper.stage.left ≤ 2 := by
      unfold Stage.left
      split <;> omega
    rw [patience, effortFor]
    omega

/-- A task is filed among those of a queue with at most one more ahead of each. -/
theorem exists_file (other : Timed τ) {ahead rest : List (Timed τ)} (h : queue = ahead ++ entry :: rest) :
    ∃ more left, file other queue = more ++ entry :: left ∧ more.length ≤ ahead.length + 1 := by
  induction ahead generalizing queue with
  | nil =>
    obtain rfl := h
    rw [List.nil_append, file]
    split
    · exact ⟨[other], rest, rfl, Nat.le_refl _⟩
    · exact ⟨[], _, rfl, Nat.zero_le _⟩
  | cons first ahead ih =>
    obtain rfl := h
    rw [List.cons_append, file]
    split
    · exact ⟨other :: first :: ahead, rest, rfl, Nat.le_refl _⟩
    · obtain ⟨more, left, hfile, hlength⟩ := ih rfl
      exact ⟨first :: more, left, congrArg (first :: ·) hfile, Nat.succ_le_succ hlength⟩

/-- If a task of a sorted queue is due then so is the first. -/
theorem Sorted.isDue (h : Sorted queue) (hentry : entry ∈ queue) {time : Nat} (hdue : entry.deadline ≤ time) :
    isDue queue time = true := by
  cases queue with
  | nil => cases hentry
  | cons first rest =>
    rw [Timekeeper.isDue, List.head?_cons, Option.any_some, decide_eq_true_eq]
    rcases List.mem_cons.mp hentry with rfl | hentry
    · exact hdue
    · have hfirst := isBefore_eq_false_iff.mp ((List.pairwise_cons.mp h).1 entry hentry)
      omega

/-- Every move brings the worker nearer to a task in its inbox: by taking a letter ahead of it, or by the
rest of the round. -/
theorem near_of_sent {before rest : List (Letter τ)} (hinbox : keeper.inbox = before ++ .task entry :: rest)
    {move : Move τ} (hworks : Works keeper later move) (hstays : later.stage ≠ .gone) :
    ∃ less < keeper.effortFor (before.length + 1), Near later entry less := by
  have htaken := hinbox.symm.trans (hworks.inbox_eq hstays)
  have hless := hworks.effortFor_lt hstays
  cases before with
  | cons letter before =>
    cases hworks with
    | look | start | pause | wake => exact ⟨_, hless _, .sent hinbox⟩
    | receive =>
      obtain ⟨-, hlater⟩ := List.cons.inj htaken
      exact ⟨_, hless _, .sent hlater.symm⟩
    | leave => exact absurd rfl hstays
  | nil =>
    cases hworks with
    | look | start | pause | wake => exact ⟨_, hless _, .sent hinbox⟩
    | @receive other _ hstage =>
      obtain ⟨hfirst, -⟩ := List.cons.inj htaken
      obtain rfl := Letter.task.inj hfirst
      have hmem : entry ∈ file entry keeper.queue :=
        (file_perm entry keeper.queue).mem_iff.mpr (List.mem_cons_self ..)
      obtain ⟨ahead, left, hfile⟩ := List.append_of_mem hmem
      refine ⟨_, ?_, .queued hfile⟩
      have hlength := congrArg List.length hfile
      rw [length_file, List.length_append, List.length_cons] at hlength
      simp only [Stage.delay, effortFor, hstage, startsOne, Bool.toNat_false]
      omega
    | leave => exact absurd rfl hstays

/-- Every move but the one that starts it brings the worker nearer to a task of its queue that is due. -/
theorem near_of_queued {ahead rest : List (Timed τ)} (hqueue : keeper.queue = ahead ++ entry :: rest)
    (hsorted : Sorted keeper.queue) (hdue : entry.deadline ≤ keeper.now) {move : Move τ}
    (hworks : Works keeper later move) (hstays : later.stage ≠ .gone) :
    move = .start entry ∨ ∃ less < ahead.length + keeper.stage.delay entry, Near later entry less := by
  have hmem : entry ∈ keeper.queue := by simp [hqueue]
  cases hworks with
  | look hstage =>
    refine .inr ⟨_, ?_, .queued hqueue⟩
    simp [hstage, Stage.delay, hdue]
  | start _ hfirst =>
    cases ahead with
    | nil => exact .inl (congrArg Move.start (List.cons.inj (hfirst.symm.trans hqueue)).1)
    | cons _ ahead =>
      obtain ⟨-, rfl⟩ := List.cons.inj (hfirst.symm.trans hqueue)
      refine .inr ⟨_, ?_, .queued rfl⟩
      simp
  | @pause time hstage hidle =>
    have hlate : ¬ entry.deadline ≤ time := fun hready =>
      Bool.false_ne_true (hidle.symm.trans (hsorted.isDue hmem hready))
    refine .inr ⟨_, ?_, .queued hqueue⟩
    simp [hstage, Stage.delay, hlate]
  | receive hstage =>
    obtain ⟨more, left, hfile, hlength⟩ := exists_file _ hqueue
    refine .inr ⟨_, ?_, .queued hfile⟩
    simp only [hstage, Stage.delay]
    omega
  | leave => exact absurd rfl hstays
  | wake hstage =>
    refine .inr ⟨_, ?_, .queued hqueue⟩
    simp [hstage, Stage.delay]

/-- Whatever happens brings the worker no farther from a task that is due, and each of its moves nearer. -/
theorem Near.step (hnear : Near keeper entry bound) (horderly : Orderly keeper)
    (hdue : entry.deadline ≤ keeper.now) (hstep : Step keeper happening later) (hstays : later.stage ≠ .gone) :
    happening.started? = some entry ∨
      ∃ less, Near later entry less ∧ less + happening.isMove.toNat ≤ bound := by
  cases hstep with
  | ask wait task =>
    refine .inr ?_
    by_cases hgone : keeper.stage = .gone
    · rw [request_of_gone wait task hgone] at hstays
      exact absurd hgone hstays
    · rw [request_of_stays wait task hgone]
      cases hnear with
      | sent hinbox => exact ⟨_, .sent (by rw [hinbox, List.append_assoc, List.cons_append]), Nat.le_refl _⟩
      | queued hqueue => exact ⟨_, .queued hqueue, Nat.le_refl _⟩
  | pass wait =>
    refine .inr ?_
    cases hnear with
    | sent hinbox => exact ⟨_, .sent hinbox, effortFor_lag_le _ _ _⟩
    | queued hqueue => exact ⟨_, .queued hqueue, Nat.le_refl _⟩
  | dismiss =>
    refine .inr ?_
    rw [dismiss]
    split
    · exact ⟨_, hnear, Nat.le_refl _⟩
    · cases hnear with
      | sent hinbox => exact ⟨_, .sent (by rw [hinbox, List.append_assoc, List.cons_append]), Nat.le_refl _⟩
      | queued hqueue => exact ⟨_, .queued hqueue, Nat.le_refl _⟩
  | work hworks =>
    cases hnear with
    | sent hinbox =>
      obtain ⟨less, hless, hlater⟩ := near_of_sent hinbox hworks hstays
      exact .inr ⟨less, hlater, hless⟩
    | queued hqueue =>
      rcases near_of_queued hqueue horderly.sorted hdue hworks hstays with hstarts | ⟨less, hless, hlater⟩
      · exact .inl (congrArg Move.started? hstarts)
      · exact .inr ⟨less, hlater, hless⟩

theorem Step.now_le (h : Step keeper happening later) : keeper.now ≤ later.now := by
  cases h with
  | ask wait task =>
    unfold request
    split <;> exact Nat.le_refl _
  | pass wait => exact Nat.le_add_right _ _
  | dismiss =>
    unfold Timekeeper.dismiss
    split <;> exact Nat.le_refl _
  | work hworks => cases hworks <;> exact Nat.le_refl _

theorem Run.now_le (h : Run keeper log later) : keeper.now ≤ later.now := by
  induction h with
  | start => exact Nat.le_refl _
  | step _ hstep ih => exact Nat.le_trans ih hstep.now_le

/-- A worker who is gone does not come back, takes no tasks and starts none. -/
theorem Step.gone (h : Step keeper happening later) (hgone : keeper.stage = .gone) :
    later.stage = .gone ∧ happening.accepted? = none ∧ happening.started? = none := by
  cases h with
  | ask wait task =>
    rw [request_of_gone wait task hgone]
    exact ⟨hgone, rfl, rfl⟩
  | pass wait => exact ⟨hgone, rfl, rfl⟩
  | dismiss =>
    refine ⟨?_, rfl, rfl⟩
    unfold Timekeeper.dismiss
    split <;> exact hgone
  | work hworks =>
    cases hworks with
    | look hstage | start hstage | pause hstage | receive hstage | leave hstage | wake hstage =>
      exact absurd (hstage.symm.trans hgone) nofun

theorem Run.gone (h : Run keeper log later) (hgone : keeper.stage = .gone) :
    later.stage = .gone ∧ accepted log = [] ∧ started log = [] := by
  induction h with
  | start => exact ⟨hgone, rfl, rfl⟩
  | step _ hstep ih =>
    obtain ⟨hmiddle, haccepted, hstarted⟩ := ih
    obtain ⟨hlater, hnone, hidle⟩ := hstep.gone hmiddle
    refine ⟨hlater, ?_, ?_⟩
    · rw [accepted_append, haccepted]
      simp [accepted, hnone]
    · rw [started_append, hstarted]
      simp [started, hidle]

/-- The worker does what comes next. -/
theorem Run.turn {middle : Timekeeper τ} {move : Move τ} (h : Run keeper log middle)
    (hwork : middle.work? = some (later, move)) : Run keeper (log ++ [.worked middle.now move]) later :=
  h.step (.work (works_of_work? hwork))

/-- While the worker is there, a task that is due is either started, or the moves that were made have
brought the worker so much nearer to it. -/
theorem Near.run (hnear : Near keeper entry bound) (horderly : Orderly keeper)
    (hdue : entry.deadline ≤ keeper.now) (hrun : Run keeper log later) (hstays : later.stage ≠ .gone) :
    entry ∈ started log ∨ ∃ less, Near later entry less ∧ less + moves log ≤ bound := by
  induction hrun with
  | start => exact .inr ⟨bound, hnear, Nat.le_refl _⟩
  | @step log happening middle later hrun hstep ih =>
    have hpresent : middle.stage ≠ .gone := fun hgone => hstays (hstep.gone hgone).1
    rcases ih hpresent with hstarted | ⟨less, hmiddle, hmoves⟩
    · exact .inl (started_append .. ▸ List.mem_append_left _ hstarted)
    · have hready := Nat.le_trans hdue hrun.now_le
      rcases hmiddle.step (horderly.run hrun) hready hstep hstays with hstarts | ⟨least, hlater, hmove⟩
      · refine .inl (started_append .. ▸ List.mem_append_right _ ?_)
        simp [started, hstarts]
      · refine .inr ⟨least, hlater, ?_⟩
        rw [moves_append]
        have hcount : moves [happening] = happening.isMove.toNat := by
          cases h : happening.isMove <;> simp [moves, h]
        omega

/-- A task that is due is started if the worker stays and makes so many moves. -/
theorem Orderly.starts (horderly : Orderly keeper) (hwaits : entry ∈ keeper.waiting)
    (hdue : entry.deadline ≤ keeper.now) (hrun : Run keeper log later) (hstays : later.stage ≠ .gone)
    (hmoves : keeper.patience < moves log) : entry ∈ started log := by
  obtain ⟨bound, hbound, hnear⟩ := exists_near hwaits
  rcases hnear.run horderly hdue hrun hstays with hstarted | ⟨less, -, hless⟩
  · exact hstarted
  · omega

/-- A worker who does nothing is gone, or has taken all letters and started all tasks that are due. -/
theorem Orderly.idle (horderly : Orderly keeper) (hidle : keeper.work? = none) (hstays : keeper.stage ≠ .gone) :
    keeper.inbox = [] ∧ ∀ entry ∈ keeper.waiting, keeper.now < entry.deadline := by
  unfold work? at hidle
  split at hidle
  · cases hidle
  · split at hidle
    · split at hidle <;> cases hidle
    · cases hidle
  · split at hidle
    · cases hidle
    · cases hidle
    · next hinbox =>
      refine ⟨hinbox, fun entry hentry => Nat.not_le.mp fun hdue => ?_⟩
      rw [waiting, hinbox, sent, List.append_nil] at hentry
      rw [if_pos (horderly.sorted.isDue hentry hdue)] at hidle
      cases hidle
  · next hgone => exact absurd hgone hstays

theorem settle_of_idle (h : keeper.work? = none) : keeper.settle = (keeper, []) := by
  rw [settle]
  split
  · rfl
  · next hwork => cases h.symm.trans hwork

theorem settle_of_work {move : Move τ} (h : keeper.work? = some (later, move)) :
    keeper.settle = (later.settle.1, move.started?.toList ++ later.settle.2) := by
  rw [settle]
  split
  · next hidle => cases h.symm.trans hidle
  · next hwork =>
    obtain ⟨rfl, rfl⟩ := Prod.mk.inj (Option.some.inj (h.symm.trans hwork))
    rfl

/-- A worker who is let go on makes one move after another, until it has nothing to do. -/
theorem settle_run (keeper : Timekeeper τ) : keeper.settle.1.work? = none ∧
    ∃ log, Run keeper log keeper.settle.1 ∧ started log = keeper.settle.2 ∧ accepted log = [] := by
  induction keeper using settle.induct with
  | case1 keeper hidle =>
    rw [settle_of_idle hidle]
    exact ⟨hidle, [], .start, rfl, rfl⟩
  | case2 keeper later move hwork _ _ _ ih =>
    rw [settle_of_work hwork]
    obtain ⟨hidle, log, hrun, hstarted, haccepted⟩ := ih
    have hfirst : Run keeper [.worked keeper.now move] later := Run.start.turn hwork
    refine ⟨hidle, _, hfirst.trans hrun, ?_, ?_⟩
    · rw [started_append, hstarted]
      cases h : move.started? <;> simp [started, Happening.started?, h]
    · rw [accepted_append, haccepted]
      rfl

theorem Step.dismissed (h : Step keeper happening later) (hdismissed : keeper.dismissed = true) :
    later.dismissed = true := by
  cases h with
  | ask wait task =>
    unfold request
    split <;> exact hdismissed
  | pass wait => exact hdismissed
  | dismiss =>
    unfold Timekeeper.dismiss
    split
    · exact hdismissed
    · next hnew => exact absurd hdismissed hnew
  | work hworks => cases hworks <;> exact hdismissed

theorem Run.dismissed (h : Run keeper log later) (hdismissed : keeper.dismissed = true) :
    later.dismissed = true := by
  induction h with
  | start => exact hdismissed
  | step _ hstep ih => exact hstep.dismissed ih

theorem dismissed_dismiss (keeper : Timekeeper τ) : keeper.dismiss.dismissed = true := by
  unfold dismiss
  split
  · assumption
  · rfl

/-- A shutdown is over when the worker has left. -/
theorem Orderly.stage_shutdown (horderly : Orderly keeper) : keeper.shutdown.stage = .gone := by
  obtain ⟨hidle, log, hrun, -⟩ := settle_run keeper.dismiss
  have hend := horderly.dismiss.run hrun
  have htold := hend.told.mp (hrun.dismissed (dismissed_dismiss keeper))
  by_contra hstays
  rw [(hend.idle hidle hstays).1] at htold
  exact htold.elim hstays nofun

/-- The run of a shutdown. -/
theorem shutdown_run (keeper : Timekeeper τ) : ∃ log, Run keeper log keeper.shutdown := by
  obtain ⟨-, log, hrun, -⟩ := settle_run keeper.dismiss
  have hfirst : Run keeper [.dismissed] keeper.dismiss := .step .start .dismiss
  exact ⟨_, hfirst.trans hrun⟩

/-- Nothing waits when the worker is gone. -/
theorem Kept.pending_eq_zero (h : Kept log keeper) (horderly : Orderly keeper) (hgone : keeper.stage = .gone) :
    keeper.pending = 0 := by
  obtain ⟨hqueue, hinbox⟩ := horderly.emptied hgone
  rw [h.counted, waiting, hqueue, hinbox]
  rfl

/-- Of the tasks in the queue the worker starts one that no other is due before. -/
theorem Orderly.first_of_start (horderly : Orderly keeper) (hworks : Works keeper later (.start entry)) :
    keeper.queue = entry :: later.queue ∧ ∀ other ∈ keeper.queue, entry.deadline < other.deadline ∨
      entry.deadline = other.deadline ∧ entry.number ≤ other.number := by
  cases hworks with
  | start _ hqueue =>
    refine ⟨hqueue, fun other hother => ?_⟩
    rcases List.mem_cons.mp (hqueue ▸ hother) with rfl | hother
    · exact .inr ⟨rfl, Nat.le_refl _⟩
    · exact isBefore_eq_false_iff.mp ((List.pairwise_cons.mp (hqueue ▸ horderly.sorted)).1 other hother)

/-- Whatever is submitted to a timekeeper, from outside or by a task that was started, however time passes
and the worker goes its rounds, and whether the timekeeper is shut down or not: each task that is accepted
is started at most once, not before it has waited as long as was asked for or the longest wait, and not
when the worker is gone. The worker starts one that no other in its queue is due before. As long as it
stays it drops none, has a move to make if one is due, and starts that within a number of moves. The count
is of the tasks that are accepted and neither started nor dropped. A shutdown ends with the worker gone;
then the count is zero, and requests are refused and leave it so. -/
theorem tasks_start_once (hrun : Run {} log keeper) :
    ((accepted log).map Timed.number).Nodup ∧
    (accepted log).Perm (keeper.waiting ++ (started log ++ dropped log)) ∧
    (accepted log).length = keeper.pending + ((started log).length + (dropped log).length) ∧
    (∀ time wait entry answer, .asked time wait entry answer ∈ log →
      entry.deadline = time + min wait longestWait) ∧
    (∀ time entry, .worked time (.start entry) ∈ log → entry.deadline ≤ time) ∧
    (∀ later entry, Works keeper later (.start entry) → keeper.queue = entry :: later.queue ∧
      ∀ other ∈ keeper.queue, entry.deadline < other.deadline ∨
        entry.deadline = other.deadline ∧ entry.number ≤ other.number) ∧
    (keeper.stage ≠ .gone → dropped log = [] ∧ (keeper.work? = none →
      keeper.inbox = [] ∧ ∀ entry ∈ keeper.waiting, keeper.now < entry.deadline)) ∧
    (∀ entry ∈ keeper.waiting, entry.deadline ≤ keeper.now → ∀ after later, Run keeper after later →
      later.stage ≠ .gone → keeper.patience < moves after → entry ∈ started after) ∧
    (keeper.stage = .gone → .dismissed ∈ log ∧ keeper.pending = 0 ∧
      (∀ wait task, (keeper.request wait task).2 = false ∧
        (keeper.request wait task).1.pending = keeper.pending) ∧
      ∀ after later, Run keeper after later →
        later.stage = .gone ∧ accepted after = [] ∧ started after = []) ∧
    keeper.shutdown.stage = .gone ∧ ∃ after, Run keeper after keeper.shutdown := by
  have horderly := hrun.orderly
  have hkept := hrun.kept
  refine ⟨hkept.distinct, hkept.accounted, ?_, fun _ _ _ _ => hrun.deadline_eq, fun _ _ => hrun.deadline_le,
    fun _ _ => horderly.first_of_start,
    fun hstays => ⟨hkept.staying hstays, fun hidle => horderly.idle hidle hstays⟩,
    fun _ hwaits hdue _ _ => horderly.starts hwaits hdue,
    fun hgone => ⟨?_, ?_, fun wait task => ?_, fun _ _ hafter => hafter.gone hgone⟩,
    horderly.stage_shutdown, shutdown_run keeper⟩
  · rw [hkept.accounted.length_eq, List.length_append, List.length_append, hkept.counted]
  · exact hkept.recorded (horderly.told.mpr (.inl hgone))
  · exact hkept.pending_eq_zero horderly hgone
  · rw [request_of_gone wait task hgone]
    exact ⟨rfl, rfl⟩

/-- A task that is due late is submitted before one that is due early; when three nanoseconds have passed
the worker has started the early one and not the late one. -/
theorem tasks_start_once_pair : ∃ (log : List (Happening String)) (keeper : Timekeeper String),
    Run {} log keeper ∧ (started log).map Timed.task = ["early"] ∧
    (accepted log).length = keeper.pending + ((started log).length + (dropped log).length) ∧
    keeper.pending = 1 ∧ keeper.shutdown.stage = .gone := by
  have hasked : Run ({} : Timekeeper String) _ _ := (Run.start.step (.ask 5 "late")).step (.ask 2 "early")
  have hfirst := ((hasked.turn rfl).turn rfl).turn rfl
  have hboth := ((hfirst.turn rfl).turn rfl).turn rfl
  have hstarted := ((hboth.step (.pass 3)).turn rfl).turn rfl
  obtain ⟨-, -, hcount, -, -, -, -, -, -, hgone, -⟩ := tasks_start_once hstarted
  exact ⟨_, _, hstarted, rfl, hcount, rfl, hgone⟩

end Patchbay.Timekeeper
