import Patchbay.Timeline.Timekeeper
import Mathlib.Data.List.Perm.Basic

/-!
# What happens to a timekeeper

Tasks are submitted to a timekeeper from outside and by the tasks that it has started, time passes, the
timekeeper is shut down, and its worker makes one move after another. Nothing is assumed of the order in
which all this happens. Whatever it is, a task that has been accepted is in one place: it has been started,
or it has been dropped, or it is waiting.
-/

namespace Patchbay.Timekeeper

/-- Something that happens to a timekeeper. -/
inductive Happening (τ : Type) where
  /-- A task is submitted at a time, to be started after a wait, and accepted or refused. -/
  | asked (time wait : Nat) (entry : Timed τ) (accepted : Bool)
  | passed (wait : Nat)
  | dismissed
  | worked (time : Nat) (move : Move τ)

namespace Happening

variable {τ : Type}

/-- The task that is accepted. -/
def accepted? : Happening τ → Option (Timed τ)
  | .asked _ _ entry true => some entry
  | _ => none

/-- The task that is started. -/
def started? : Happening τ → Option (Timed τ)
  | .worked _ move => move.started?
  | _ => none

/-- The tasks that are dropped. -/
def dropped : Happening τ → List (Timed τ)
  | .worked _ (.leave dropped) => dropped
  | _ => []

/-- Decide whether a move of the worker is what happens. -/
def isMove : Happening τ → Bool
  | .worked .. => true
  | _ => false

end Happening

variable {τ : Type} {keeper later : Timekeeper τ} {happening : Happening τ} {log : List (Happening τ)}
  {queue : List (Timed τ)} {entry : Timed τ}

/-- One thing happens. -/
inductive Step (keeper : Timekeeper τ) : Happening τ → Timekeeper τ → Prop where
  | ask (wait : Nat) (task : τ) :
    Step keeper (.asked keeper.now wait (keeper.entry wait task) (keeper.request wait task).2)
      (keeper.request wait task).1
  | pass (wait : Nat) : Step keeper (.passed wait) (keeper.lag wait)
  | dismiss : Step keeper .dismissed keeper.dismiss
  | work {later : Timekeeper τ} {move : Move τ} (hworks : Works keeper later move) :
    Step keeper (.worked keeper.now move) later

/-- One thing after another happens. -/
inductive Run (keeper : Timekeeper τ) : List (Happening τ) → Timekeeper τ → Prop where
  | start : Run keeper [] keeper
  | step {log : List (Happening τ)} {happening : Happening τ} {middle later : Timekeeper τ}
    (hrun : Run keeper log middle) (hstep : Step middle happening later) :
    Run keeper (log ++ [happening]) later

theorem Run.trans {middle : Timekeeper τ} {before after : List (Happening τ)}
    (hbefore : Run keeper before middle) (hafter : Run middle after later) :
    Run keeper (before ++ after) later := by
  induction hafter with
  | start => rwa [List.append_nil]
  | step _ hstep ih =>
    rw [← List.append_assoc]
    exact .step ih hstep

/-- The tasks that are accepted, in the order of their submission. -/
def accepted (log : List (Happening τ)) : List (Timed τ) := log.filterMap Happening.accepted?

/-- The tasks that are started, in the order of starting. -/
def started (log : List (Happening τ)) : List (Timed τ) := log.filterMap Happening.started?

/-- The tasks that are dropped. -/
def dropped (log : List (Happening τ)) : List (Timed τ) := log.flatMap Happening.dropped

/-- How many moves the worker makes. -/
def moves (log : List (Happening τ)) : Nat := log.countP Happening.isMove

theorem accepted_append (before after : List (Happening τ)) :
    accepted (before ++ after) = accepted before ++ accepted after := List.filterMap_append

theorem started_append (before after : List (Happening τ)) :
    started (before ++ after) = started before ++ started after := List.filterMap_append

theorem dropped_append (before after : List (Happening τ)) :
    dropped (before ++ after) = dropped before ++ dropped after := List.flatMap_append

theorem moves_append (before after : List (Happening τ)) :
    moves (before ++ after) = moves before + moves after := List.countP_append

theorem sent_append (before after : List (Letter τ)) : sent (before ++ after) = sent before ++ sent after := by
  induction before with
  | nil => rfl
  | cons letter rest ih =>
    cases letter with
    | task entry => exact congrArg (entry :: ·) ih
    | dismissal => exact ih

theorem isBefore_iff {entry other : Timed τ} : entry.isBefore other = true ↔
    entry.deadline < other.deadline ∨ entry.deadline = other.deadline ∧ entry.number < other.number := by
  simp [Timed.isBefore]

/-- One task is due no later than another, and was submitted no later if they have one deadline. -/
theorem isBefore_eq_false_iff {entry other : Timed τ} : other.isBefore entry = false ↔
    entry.deadline < other.deadline ∨ entry.deadline = other.deadline ∧ entry.number ≤ other.number := by
  rw [← Bool.not_eq_true, isBefore_iff]
  omega

theorem file_perm (entry : Timed τ) (queue : List (Timed τ)) : (file entry queue).Perm (entry :: queue) := by
  induction queue with
  | nil => exact .refl _
  | cons first rest ih =>
    unfold file
    split
    · exact .refl _
    · exact (ih.cons first).trans (.swap entry first rest)

/-- No task of a queue is due before one that stands ahead of it. -/
def Sorted (queue : List (Timed τ)) : Prop := queue.Pairwise fun first other => other.isBefore first = false

theorem Sorted.file (h : Sorted queue) (entry : Timed τ) : Sorted (file entry queue) := by
  induction queue with
  | nil => exact List.pairwise_singleton _ _
  | cons first rest ih =>
    obtain ⟨hfirst, hrest⟩ := List.pairwise_cons.mp h
    unfold Timekeeper.file
    split
    · next hbefore =>
      refine List.pairwise_cons.mpr ⟨fun other hother => ?_, h⟩
      rw [isBefore_iff] at hbefore
      rw [isBefore_eq_false_iff]
      rcases List.mem_cons.mp hother with rfl | hother
      · omega
      · have hlater := isBefore_eq_false_iff.mp (hfirst other hother)
        omega
    · next hafter =>
      refine List.pairwise_cons.mpr ⟨fun other hother => ?_, ih hrest⟩
      rcases List.mem_cons.mp ((file_perm entry rest).mem_iff.mp hother) with rfl | hother
      · exact Bool.not_eq_true _ ▸ hafter
      · exact hfirst other hother

theorem request_of_gone (wait : Nat) (task : τ) (hgone : keeper.stage = .gone) :
    keeper.request wait task = ({ keeper with submitted := keeper.submitted + 1 }, false) := if_pos hgone

theorem request_of_stays (wait : Nat) (task : τ) (hstays : keeper.stage ≠ .gone) :
    keeper.request wait task =
      ({ keeper with
          submitted := keeper.submitted + 1
          pending := keeper.pending + 1
          inbox := keeper.inbox ++ [.task (keeper.entry wait task)] }, true) := if_neg hstays

/-- A timekeeper as its worker keeps it: the queue is sorted, the worker looked at the clock before now,
it leaves nothing behind, and until it has left the letter that tells it to is in the inbox. -/
structure Orderly (keeper : Timekeeper τ) : Prop where
  sorted : Sorted keeper.queue
  looked : ∀ time, keeper.stage = .starting time → time ≤ keeper.now
  emptied : keeper.stage = .gone → keeper.queue = [] ∧ keeper.inbox = []
  told : keeper.dismissed = true ↔ keeper.stage = .gone ∨ .dismissal ∈ keeper.inbox

namespace Orderly

theorem fresh : Orderly ({} : Timekeeper τ) := ⟨.nil, nofun, nofun, by simp⟩

theorem request (h : Orderly keeper) (wait : Nat) (task : τ) : Orderly (keeper.request wait task).1 := by
  unfold Timekeeper.request
  split
  · exact ⟨h.sorted, h.looked, h.emptied, h.told⟩
  · next hstays =>
    exact ⟨h.sorted, h.looked, fun hgone => absurd hgone hstays, by simpa using h.told⟩

theorem dismiss (h : Orderly keeper) : Orderly keeper.dismiss := by
  unfold Timekeeper.dismiss
  split
  · exact h
  · next hnew =>
    exact ⟨h.sorted, h.looked, fun hgone => absurd (h.told.mpr (.inl hgone)) hnew, by simp⟩

theorem works (h : Orderly keeper) {move : Move τ} (hworks : Works keeper later move) : Orderly later := by
  have htold := h.told
  cases hworks with
  | look hstage =>
    exact ⟨h.sorted, fun time hlooked => (Stage.starting.inj hlooked) ▸ Nat.le_refl _, nofun,
      by simpa [hstage] using htold⟩
  | start hstage hqueue hdue =>
    exact ⟨(List.pairwise_cons.mp (hqueue ▸ h.sorted)).2, h.looked,
      fun hgone => absurd (hstage.symm.trans hgone) nofun, htold⟩
  | pause hstage hidle => exact ⟨h.sorted, nofun, nofun, by simpa [hstage] using htold⟩
  | receive hstage hinbox =>
    exact ⟨h.sorted.file _, nofun, nofun, by simpa [hstage, hinbox] using htold⟩
  | leave hstage hinbox =>
    exact ⟨.nil, nofun, fun _ => ⟨rfl, rfl⟩, by simpa [hinbox] using htold⟩
  | wake hstage hdue => exact ⟨h.sorted, nofun, nofun, by simpa [hstage] using htold⟩

theorem step (h : Orderly keeper) (hstep : Step keeper happening later) : Orderly later := by
  cases hstep with
  | ask wait task => exact h.request wait task
  | pass wait => exact ⟨h.sorted, fun time hlooked => Nat.le_add_right_of_le (h.looked time hlooked), h.emptied, h.told⟩
  | dismiss => exact h.dismiss
  | work hworks => exact h.works hworks

theorem run (h : Orderly keeper) (hrun : Run keeper log later) : Orderly later := by
  induction hrun with
  | start => exact h
  | step _ hstep ih => exact ih.step hstep

end Orderly

/-- What has become of the tasks that were submitted to a timekeeper. -/
structure Kept (log : List (Happening τ)) (keeper : Timekeeper τ) : Prop where
  below : ∀ entry ∈ accepted log, entry.number < keeper.submitted
  distinct : ((accepted log).map Timed.number).Nodup
  accounted : (accepted log).Perm (keeper.waiting ++ (started log ++ dropped log))
  counted : keeper.pending = keeper.waiting.length
  staying : keeper.stage ≠ .gone → dropped log = []
  recorded : keeper.dismissed = true → .dismissed ∈ log

namespace Kept

theorem fresh : Kept [] ({} : Timekeeper τ) where
  below := nofun
  distinct := List.nodup_nil
  accounted := .refl _
  counted := rfl
  staying _ := rfl
  recorded := nofun

/-- Nothing changes for the tasks when none is accepted, started or dropped. -/
theorem quiet (h : Kept log keeper) (haccepted : happening.accepted? = none)
    (hstarted : happening.started? = none) (hdropped : happening.dropped = [])
    (hwaiting : later.waiting.Perm keeper.waiting) (hpending : later.pending = keeper.pending)
    (hsubmitted : keeper.submitted ≤ later.submitted) (hstays : later.stage ≠ .gone → keeper.stage ≠ .gone)
    (hrecorded : later.dismissed = true → .dismissed ∈ log ++ [happening]) :
    Kept (log ++ [happening]) later := by
  have hsame : accepted (log ++ [happening]) = accepted log := by simp [accepted, haccepted]
  have hnone : started (log ++ [happening]) = started log := by simp [started, hstarted]
  have hkept : dropped (log ++ [happening]) = dropped log := by simp [dropped, hdropped]
  constructor
  · exact fun entry hentry => Nat.lt_of_lt_of_le (h.below entry (hsame ▸ hentry)) hsubmitted
  · exact hsame.symm ▸ h.distinct
  · rw [hsame, hnone, hkept]
    exact h.accounted.trans (hwaiting.symm.append_right _)
  · rw [hpending, h.counted, hwaiting.length_eq]
  · exact fun hlater => hkept.trans (h.staying (hstays hlater))
  · exact hrecorded

theorem request (h : Kept log keeper) (wait : Nat) (task : τ) :
    Kept (log ++ [.asked keeper.now wait (keeper.entry wait task) (keeper.request wait task).2])
      (keeper.request wait task).1 := by
  by_cases hgone : keeper.stage = .gone
  · rw [request_of_gone wait task hgone]
    exact h.quiet rfl rfl rfl (.refl _) rfl (Nat.le_succ _) id
      fun hdismissed => List.mem_append_left _ (h.recorded hdismissed)
  · rw [request_of_stays wait task hgone]
    set entry := keeper.entry wait task
    have hmore : accepted (log ++ [.asked keeper.now wait entry true]) = accepted log ++ [entry] := by
      simp [accepted, Happening.accepted?]
    have hnone : started (log ++ [.asked keeper.now wait entry true]) = started log := by
      simp [started, Happening.started?]
    have hkept : dropped (log ++ [.asked keeper.now wait entry true]) = dropped log := by
      simp [dropped, Happening.dropped]
    have hwaiting : (⟨keeper.now, keeper.inbox ++ [.task entry], keeper.queue, keeper.submitted + 1,
        keeper.pending + 1, keeper.stage, keeper.dismissed⟩ : Timekeeper τ).waiting =
        keeper.waiting ++ [entry] := by
      simp [waiting, sent_append, sent]
    constructor
    · intro other hother
      rcases List.mem_append.mp (hmore ▸ hother) with hother | hother
      · exact Nat.lt_succ_of_lt (h.below other hother)
      · rw [List.mem_singleton.mp hother]
        exact Nat.lt_succ_self _
    · rw [hmore, List.map_append]
      refine List.nodup_append.mpr ⟨h.distinct, by simp, fun number hnumber other hother hsame => ?_⟩
      obtain ⟨earlier, hearlier, rfl⟩ := List.mem_map.mp hnumber
      rw [List.mem_singleton.mp hother] at hsame
      exact Nat.ne_of_lt (h.below earlier hearlier) hsame
    · rw [hmore, hnone, hkept, hwaiting, List.append_assoc]
      refine (h.accounted.append_right _).trans ?_
      rw [List.append_assoc]
      exact List.perm_append_comm.append_left _
    · rw [hwaiting, List.length_append, ← h.counted]
      rfl
    · exact fun hstays => hkept.trans (h.staying hstays)
    · exact fun hdismissed => List.mem_append_left _ (h.recorded hdismissed)

theorem works (h : Kept log keeper) {move : Move τ} (hworks : Works keeper later move) :
    Kept (log ++ [.worked keeper.now move]) later := by
  have hrecorded (happening : Happening τ) (hdismissed : keeper.dismissed = true) :
      Happening.dismissed ∈ log ++ [happening] := List.mem_append_left _ (h.recorded hdismissed)
  cases hworks with
  | look hstage =>
    exact h.quiet rfl rfl rfl (.refl _) rfl (Nat.le_refl _) (fun _ => hstage ▸ nofun) (hrecorded _)
  | pause hstage =>
    exact h.quiet rfl rfl rfl (.refl _) rfl (Nat.le_refl _) (fun _ => hstage ▸ nofun) (hrecorded _)
  | wake hstage =>
    exact h.quiet rfl rfl rfl (.refl _) rfl (Nat.le_refl _) (fun _ => hstage ▸ nofun) (hrecorded _)
  | receive hstage hinbox =>
    refine h.quiet rfl rfl rfl ?_ rfl (Nat.le_refl _) (fun _ => hstage ▸ nofun) (hrecorded _)
    simp only [waiting, hinbox, sent]
    exact ((file_perm _ _).append_right _).trans List.perm_middle.symm
  | @start time first rest hstage hqueue hdue =>
    have hwaiting : keeper.waiting = first :: (rest ++ sent keeper.inbox) := by simp [waiting, hqueue]
    have hsame : accepted (log ++ [.worked keeper.now (.start first)]) = accepted log := by
      simp [accepted, Happening.accepted?]
    have hmore : started (log ++ [.worked keeper.now (.start first)]) = started log ++ [first] := by
      simp [started, Happening.started?, Move.started?]
    have hkept : dropped (log ++ [.worked keeper.now (.start first)]) = dropped log := by
      simp [dropped, Happening.dropped]
    constructor
    · exact hsame.symm ▸ h.below
    · exact hsame.symm ▸ h.distinct
    · rw [hsame, hmore, hkept]
      refine h.accounted.trans ?_
      rw [hwaiting, List.append_assoc (started log), List.singleton_append, ← List.append_assoc _ (started log),
        List.cons_append, ← List.append_assoc]
      exact List.perm_middle.symm
    · rw [h.counted, hwaiting]
      rfl
    · exact fun hstays => hkept.trans (h.staying hstays)
    · exact hrecorded _
  | @leave rest hstage hinbox =>
    have hwaiting : keeper.waiting = keeper.queue ++ sent rest := by simp [waiting, hinbox, sent]
    set left := keeper.queue ++ sent rest
    have hsame : accepted (log ++ [.worked keeper.now (.leave left)]) = accepted log := by
      simp [accepted, Happening.accepted?]
    have hnone : started (log ++ [.worked keeper.now (.leave left)]) = started log := by
      simp [started, Happening.started?, Move.started?]
    have hdropped : dropped (log ++ [.worked keeper.now (.leave left)]) = left := by
      rw [dropped_append, h.staying (hstage ▸ nofun)]
      simp [dropped, Happening.dropped]
    constructor
    · exact hsame.symm ▸ h.below
    · exact hsame.symm ▸ h.distinct
    · rw [hsame, hnone, hdropped]
      refine h.accounted.trans ?_
      rw [h.staying (hstage ▸ nofun), List.append_nil, hwaiting]
      exact List.perm_append_comm
    · rfl
    · exact fun hstays => absurd rfl hstays
    · exact hrecorded _

theorem step (h : Kept log keeper) (hstep : Step keeper happening later) :
    Kept (log ++ [happening]) later := by
  cases hstep with
  | ask wait task => exact h.request wait task
  | pass wait =>
    exact h.quiet rfl rfl rfl (.refl _) rfl (Nat.le_refl _) id
      fun hdismissed => List.mem_append_left _ (h.recorded hdismissed)
  | dismiss =>
    have hrecorded (_ : keeper.dismiss.dismissed = true) : Happening.dismissed ∈ log ++ [.dismissed] :=
      List.mem_append_right _ (List.mem_singleton_self _)
    by_cases hdone : keeper.dismissed = true
    · rw [dismiss, if_pos hdone] at hrecorded ⊢
      exact h.quiet rfl rfl rfl (.refl _) rfl (Nat.le_refl _) id hrecorded
    · rw [dismiss, if_neg hdone] at hrecorded ⊢
      exact h.quiet rfl rfl rfl (by simp [waiting, sent_append, sent]) rfl (Nat.le_refl _) id hrecorded
  | work hworks => exact h.works hworks

end Kept

/-- Whatever happens to a new timekeeper, its worker keeps it in order. -/
theorem Run.orderly (h : Run {} log keeper) : Orderly keeper := Orderly.fresh.run h

/-- Whatever happens to a new timekeeper, every task that it accepted is accounted for. -/
theorem Run.kept (h : Run {} log keeper) : Kept log keeper := by
  induction h with
  | start => exact .fresh
  | step _ hstep ih => exact ih.step hstep

/-- A task is due when it has waited as long as was asked for, but no longer than the longest wait. -/
theorem Run.deadline_eq (h : Run keeper log later) {time wait : Nat} {answer : Bool}
    (hasked : .asked time wait entry answer ∈ log) : entry.deadline = time + min wait longestWait := by
  induction h with
  | start => cases hasked
  | step _ hstep ih =>
    rcases List.mem_append.mp hasked with hasked | hasked
    · exact ih hasked
    · obtain rfl := List.mem_singleton.mp hasked
      cases hstep
      rfl

/-- No task is started before it is due. -/
theorem Run.deadline_le (h : Run {} log keeper) {time : Nat}
    (hstarted : .worked time (.start entry) ∈ log) : entry.deadline ≤ time := by
  induction h with
  | start => cases hstarted
  | step hrun hstep ih =>
    rcases List.mem_append.mp hstarted with hstarted | hstarted
    · exact ih hstarted
    · obtain rfl := List.mem_singleton.mp hstarted
      cases hstep with
      | work hworks =>
        cases hworks with
        | start hstage _ hdue => exact Nat.le_trans hdue (hrun.orderly.looked _ hstage)

end Patchbay.Timekeeper
