import Patchbay.Timeline.Basic

/-!
# Timekeepers

A timekeeper has one worker who starts tasks when they are due. The worker goes round and round: it
looks at the clock, starts the tasks in its queue that were due by then, and takes one letter out of its
inbox, for which it waits no longer than until the next task in the queue is due.

Requests reach the queue through the inbox only, whether they come from outside or from a task that has
been started. They are accepted as long as the worker is there. A timekeeper is shut down by a letter
too. The worker leaves when it comes upon it, whatever it has not started is dropped, and the one who
sent the letter waits for that.
-/

namespace Patchbay

/-- Decide which of two tasks is due first: of two with one deadline the one submitted first. -/
def Timed.isBefore {τ : Type} (entry other : Timed τ) : Bool :=
  entry.deadline < other.deadline ||
    (entry.deadline == other.deadline && entry.number < other.number)

namespace Timekeeper

/-- What stands in the inbox of a timekeeper. -/
inductive Letter (τ : Type) where
  | task (entry : Timed τ)
  /-- The worker is to leave. -/
  | dismissal
deriving Repr, Inhabited

/-- Where the worker is on its round. -/
inductive Stage where
  /-- About to look at the clock. -/
  | looking
  /-- Starting the tasks that were due when it looked at the clock. -/
  | starting (time : Nat)
  /-- Waiting for a letter. -/
  | waiting
  | gone
deriving DecidableEq, Repr, Inhabited

/-- What is left of a round, counted in moves. -/
def Stage.left : Stage → Nat
  | .looking => 2
  | .starting _ => 1
  | .waiting | .gone => 0

/-- Something that the worker does. -/
inductive Move (τ : Type) where
  /-- Going on to the next part of the round. -/
  | turn
  | receive (entry : Timed τ)
  | start (entry : Timed τ)
  /-- Leaving, with the tasks that are dropped. -/
  | leave (dropped : List (Timed τ))
deriving Repr, Inhabited

/-- The task that is started by a move. -/
def Move.started? {τ : Type} : Move τ → Option (Timed τ)
  | .start entry => some entry
  | _ => none

/-- The letters that are taken out of the inbox by a move, unless it is the last. -/
def Move.taken {τ : Type} : Move τ → List (Letter τ)
  | .receive entry => [.task entry]
  | _ => []

end Timekeeper

/-- Tasks that have been accepted and not been started, and the worker who starts them. -/
structure Timekeeper (τ : Type) where
  now : Nat := 0
  inbox : List (Timekeeper.Letter τ) := []
  /-- The tasks that the worker has received, in the order in which they are due. -/
  queue : List (Timed τ) := []
  submitted : Nat := 0
  /-- How many tasks are waiting. The requests count it up and the worker counts it down. -/
  pending : Nat := 0
  stage : Timekeeper.Stage := .looking
  /-- Whether the worker has been told to leave. -/
  dismissed : Bool := false
deriving Repr, Inhabited

namespace Timekeeper

variable {τ : Type}

/-- Put a task in front of those in a queue that are due later. -/
def file (entry : Timed τ) : List (Timed τ) → List (Timed τ)
  | [] => [entry]
  | first :: rest =>
    if entry.isBefore first then entry :: first :: rest else first :: file entry rest

/-- A task that is submitted next, to be started after a wait. -/
def entry (keeper : Timekeeper τ) (wait : Nat) (task : τ) : Timed τ :=
  ⟨keeper.now + min wait longestWait, keeper.submitted, task⟩

/-- Ask for a task to be started after a wait. It is counted before it is sent, and the count is taken
back if the worker is gone. -/
def request (keeper : Timekeeper τ) (wait : Nat) (task : τ) : Timekeeper τ × Bool :=
  let counted := { keeper with submitted := keeper.submitted + 1, pending := keeper.pending + 1 }
  if keeper.stage = .gone then ({ counted with pending := counted.pending - 1 }, false)
  else ({ counted with inbox := counted.inbox ++ [.task (keeper.entry wait task)] }, true)

/-- Let time pass. -/
def lag (keeper : Timekeeper τ) (wait : Nat) : Timekeeper τ :=
  { keeper with now := keeper.now + wait }

/-- Tell the worker to leave, which is done only once. -/
def dismiss (keeper : Timekeeper τ) : Timekeeper τ :=
  if keeper.dismissed then keeper
  else { keeper with inbox := keeper.inbox ++ [.dismissal], dismissed := true }

/-- The tasks in an inbox, in the order of sending. -/
def sent : List (Letter τ) → List (Timed τ)
  | [] => []
  | .task entry :: rest => entry :: sent rest
  | .dismissal :: rest => sent rest

/-- The tasks that are waiting, be they in the queue or still in the inbox. -/
def waiting (keeper : Timekeeper τ) : List (Timed τ) := keeper.queue ++ sent keeper.inbox

/-- Decide whether a task of a queue is due at a time. -/
def isDue (queue : List (Timed τ)) (time : Nat) : Bool :=
  queue.head?.any fun first => first.deadline ≤ time

/-- What the worker does next, and what comes of it. It does nothing while it waits for a letter and no
task is due, nor when it is gone. Nobody can ask for a task between the worker's leaving and the end of
the shutdown, so the count of the tasks that are waiting is set to zero with the one step. -/
def work? (keeper : Timekeeper τ) : Option (Timekeeper τ × Move τ) :=
  match keeper.stage with
  | .looking => some ({ keeper with stage := .starting keeper.now }, .turn)
  | .starting time =>
    match keeper.queue with
    | first :: rest =>
      if first.deadline ≤ time then
        some ({ keeper with queue := rest, pending := keeper.pending - 1 }, .start first)
      else some ({ keeper with stage := .waiting }, .turn)
    | [] => some ({ keeper with stage := .waiting }, .turn)
  | .waiting =>
    match keeper.inbox with
    | .task entry :: rest =>
      some ({ keeper with inbox := rest, queue := file entry keeper.queue, stage := .looking },
        .receive entry)
    | .dismissal :: rest =>
      some ({ keeper with inbox := [], queue := [], pending := 0, stage := .gone },
        .leave (keeper.queue ++ sent rest))
    | [] =>
      if isDue keeper.queue keeper.now then some ({ keeper with stage := .looking }, .turn) else none
  | .gone => none

/-- The moves that the worker can make. They are those that `work?` tells, and one more: a letter that
comes at the last moment may be left for the next round, because a task is due. -/
inductive Works (keeper : Timekeeper τ) : Timekeeper τ → Move τ → Prop where
  | look (hstage : keeper.stage = .looking) :
    Works keeper { keeper with stage := .starting keeper.now } .turn
  | start {time : Nat} {first : Timed τ} {rest : List (Timed τ)} (hstage : keeper.stage = .starting time)
    (hqueue : keeper.queue = first :: rest) (hdue : first.deadline ≤ time) :
    Works keeper { keeper with queue := rest, pending := keeper.pending - 1 } (.start first)
  | pause {time : Nat} (hstage : keeper.stage = .starting time)
    (hidle : isDue keeper.queue time = false) :
    Works keeper { keeper with stage := .waiting } .turn
  | receive {entry : Timed τ} {rest : List (Letter τ)} (hstage : keeper.stage = .waiting)
    (hinbox : keeper.inbox = .task entry :: rest) :
    Works keeper { keeper with inbox := rest, queue := file entry keeper.queue, stage := .looking }
      (.receive entry)
  | leave {rest : List (Letter τ)} (hstage : keeper.stage = .waiting)
    (hinbox : keeper.inbox = .dismissal :: rest) :
    Works keeper { keeper with inbox := [], queue := [], pending := 0, stage := .gone }
      (.leave (keeper.queue ++ sent rest))
  | wake (hstage : keeper.stage = .waiting) (hdue : isDue keeper.queue keeper.now = true) :
    Works keeper { keeper with stage := .looking } .turn

theorem works_of_work? {keeper later : Timekeeper τ} {move : Move τ}
    (h : keeper.work? = some (later, move)) : Works keeper later move := by
  unfold work? at h
  split at h
  · next hstage =>
    obtain ⟨rfl, rfl⟩ := Prod.mk.inj (Option.some.inj h)
    exact .look hstage
  · next time hstage =>
    split at h
    · next first rest hqueue =>
      split at h
      · next hdue =>
        obtain ⟨rfl, rfl⟩ := Prod.mk.inj (Option.some.inj h)
        exact .start hstage hqueue hdue
      · next hearly =>
        obtain ⟨rfl, rfl⟩ := Prod.mk.inj (Option.some.inj h)
        exact .pause hstage (by simpa [isDue, hqueue] using hearly)
    · next hqueue =>
      obtain ⟨rfl, rfl⟩ := Prod.mk.inj (Option.some.inj h)
      exact .pause hstage (by simp [isDue, hqueue])
  · next hstage =>
    split at h
    · next entry rest hinbox =>
      obtain ⟨rfl, rfl⟩ := Prod.mk.inj (Option.some.inj h)
      exact .receive hstage hinbox
    · next rest hinbox =>
      obtain ⟨rfl, rfl⟩ := Prod.mk.inj (Option.some.inj h)
      exact .leave hstage hinbox
    · split at h
      · next hdue =>
        obtain ⟨rfl, rfl⟩ := Prod.mk.inj (Option.some.inj h)
        exact .wake hstage hdue
      · cases h
  · cases h

/-- Decide whether the worker, where it is on its round, starts a task of the queue on this round. -/
def startsOne (queue : List (Timed τ)) (now : Nat) : Stage → Bool
  | .looking => isDue queue now
  | .starting time => isDue queue time
  | .waiting | .gone => false

/-- A bound on the moves that the worker makes until it has taken so many letters and has nothing to do,
if no time passes. A letter asks for a round, and a task in the queue for being started and for the round
that it sets off by being due. -/
def effortFor (letters : Nat) (keeper : Timekeeper τ) : Nat :=
  9 * letters +
    (6 * keeper.queue.length - 4 * (startsOne keeper.queue keeper.now keeper.stage).toNat) +
      keeper.stage.left

/-- The same bound for all letters in the inbox. -/
def effort (keeper : Timekeeper τ) : Nat := keeper.effortFor keeper.inbox.length

theorem length_file (entry : Timed τ) (queue : List (Timed τ)) :
    (file entry queue).length = queue.length + 1 := by
  induction queue with
  | nil => rfl
  | cons first rest ih =>
    unfold file
    split
    · rfl
    · rw [List.length_cons, ih, List.length_cons]

/-- A queue of which a task is due is not empty. -/
theorem length_pos_of_isDue {queue : List (Timed τ)} {time : Nat} (h : isDue queue time = true) :
    0 < queue.length := by
  cases queue with
  | nil => cases h
  | cons => exact Nat.succ_pos _

/-- The letters that the worker does not take stay in the inbox. -/
theorem Works.inbox_eq {keeper later : Timekeeper τ} {move : Move τ} (h : Works keeper later move)
    (hstays : later.stage ≠ .gone) : keeper.inbox = move.taken ++ later.inbox := by
  cases h with
  | look | start | pause | wake => rfl
  | receive _ hinbox => exact hinbox
  | leave => exact absurd rfl hstays

/-- Every move of the worker but the last takes it nearer to having nothing to do, be it by the letter
that it takes. -/
theorem Works.effortFor_lt {keeper later : Timekeeper τ} {move : Move τ} (h : Works keeper later move)
    (hstays : later.stage ≠ .gone) (letters : Nat) :
    later.effortFor letters < keeper.effortFor (letters + move.taken.length) := by
  cases h with
  | look hstage =>
    simp only [effortFor, hstage, startsOne, Stage.left, Move.taken, List.length_nil]
    omega
  | start hstage hqueue hdue =>
    simp [effortFor, hstage, hqueue, startsOne, isDue, hdue, Move.taken]
    omega
  | pause hstage hidle => simp [effortFor, hstage, startsOne, hidle, Stage.left, Move.taken]
  | receive hstage hinbox =>
    simp only [effortFor, hstage, length_file, startsOne, Stage.left, Bool.toNat_false, Move.taken,
      List.length_cons, List.length_nil]
    omega
  | leave => exact absurd rfl hstays
  | wake hstage hdue =>
    have hpos := length_pos_of_isDue hdue
    simp only [effortFor, hstage, hdue, startsOne, Stage.left, Bool.toNat_true, Bool.toNat_false,
      Move.taken, List.length_nil]
    omega

/-- So it does for all that is in its inbox. -/
theorem effort_lt_of_work? {keeper later : Timekeeper τ} {move : Move τ}
    (h : keeper.work? = some (later, move)) : later.effort < keeper.effort := by
  have hworks := works_of_work? h
  by_cases hgone : later.stage = .gone
  · cases hworks with
    | leave hstage hinbox =>
      simp only [effort, effortFor, hstage, hinbox, Stage.left, List.length_cons, List.length_nil]
      omega
    | start hstage => cases hstage.symm.trans hgone
    | look | pause | receive | wake => cases hgone
  · rw [effort, effort, hworks.inbox_eq hgone, List.length_append, Nat.add_comm]
    exact hworks.effortFor_lt hgone later.inbox.length

/-- A worker about to start a task is so if time passes. -/
theorem startsOne_lag (queue : List (Timed τ)) (now wait : Nat) {stage : Stage}
    (h : startsOne queue now stage = true) : startsOne queue (now + wait) stage = true := by
  cases stage with
  | looking =>
    cases queue with
    | nil => exact h
    | cons first rest =>
      simp only [startsOne, isDue, List.head?_cons, Option.any_some, decide_eq_true_eq] at h ⊢
      exact Nat.le_add_right_of_le h
  | starting | waiting | gone => exact h

/-- The worker has no more to do because time has passed. -/
theorem effortFor_lag_le (letters : Nat) (keeper : Timekeeper τ) (wait : Nat) :
    (keeper.lag wait).effortFor letters ≤ keeper.effortFor letters := by
  have hkeep : (startsOne keeper.queue keeper.now keeper.stage).toNat ≤
      (startsOne keeper.queue (keeper.now + wait) keeper.stage).toNat := by
    cases hstarts : startsOne keeper.queue keeper.now keeper.stage with
    | false => exact Nat.zero_le _
    | true => exact Nat.le_of_eq (congrArg Bool.toNat (startsOne_lag _ _ wait hstarts)).symm
  simp only [effortFor, lag]
  omega

/-- Let the worker go on until it has nothing to do, and tell which tasks it started. -/
def settle (keeper : Timekeeper τ) : Timekeeper τ × List (Timed τ) :=
  match _h : keeper.work? with
  | none => (keeper, [])
  | some (later, move) =>
    let (settled, started) := settle later
    (settled, move.started?.toList ++ started)
termination_by keeper.effort
decreasing_by exact effort_lt_of_work? _h

/-- Shut the timekeeper down. -/
def shutdown (keeper : Timekeeper τ) : Timekeeper τ := keeper.dismiss.settle.1

end Timekeeper

end Patchbay
