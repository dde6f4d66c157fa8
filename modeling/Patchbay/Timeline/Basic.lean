import Patchbay.Number.Binary

/-!
# Timelines

Tasks waiting for their time. Time counts nanoseconds and moves on only when a task is taken, to the
deadline of that task. The task with the earliest deadline comes first, and of several with one
deadline the one submitted first. A timeline that was shut down has no tasks and takes none.
-/

namespace Patchbay

/-- A task with its deadline and the number of its submission. -/
structure Timed (τ : Type) where
  deadline : Nat
  number : Nat
  task : τ
deriving Repr, Inhabited

/-- Tasks in the order in which they are due. -/
structure Timeline (τ : Type) where
  now : Nat := 0
  queue : List (Timed τ) := []
  submitted : Nat := 0
  closed : Bool := false
deriving Repr, Inhabited

/-- How long a second is. -/
def second : Nat := 1000000000

/-- The longest time to wait: a year of 365 days. -/
def longestWait : Nat := 365 * 24 * 60 * 60 * second

/-- A number of milliseconds as time to wait, between none and `longestWait`. The seconds are
computed in doubles. NaN and infinities stand for none. -/
def waitOfMilliseconds (milliseconds : Float) : Nat :=
  match Binary.ofDouble? milliseconds, Binary.ofDouble? (milliseconds / 1000.0) with
  | some _, some seconds =>
    if seconds.negative then 0
    else
      let scaled := seconds.mantissa * second
      min longestWait <|
        if 0 ≤ seconds.exponent then scaled <<< seconds.exponent.toNat
        else roundedQuotient scaled (1 <<< (-seconds.exponent).toNat)
  | _, _ => 0

namespace Timeline

variable {τ : Type}

/-- Put a task behind all those that are due no later. -/
def insert (entry : Timed τ) : List (Timed τ) → List (Timed τ)
  | [] => [entry]
  | first :: rest =>
    if first.deadline ≤ entry.deadline then first :: insert entry rest else entry :: first :: rest

/-- Submit a task; a timeline that was shut down refuses it. -/
def schedule (timeline : Timeline τ) (wait : Nat) (task : τ) : Timeline τ × Bool :=
  if timeline.closed then (timeline, false)
  else
    let entry : Timed τ := ⟨timeline.now + min wait longestWait, timeline.submitted, task⟩
    ({ timeline with
        queue := insert entry timeline.queue
        submitted := timeline.submitted + 1 }, true)

/-- Take the task that is due first. -/
def next? (timeline : Timeline τ) : Option (Timed τ × Timeline τ) :=
  match timeline.queue with
  | [] => none
  | first :: rest =>
    some (first, { timeline with now := max timeline.now first.deadline, queue := rest })

/-- The number of tasks that are waiting. -/
def pending (timeline : Timeline τ) : Nat := timeline.queue.length

/-- Drop all tasks and take no more. -/
def shutdown (timeline : Timeline τ) : Timeline τ := { timeline with queue := [], closed := true }

end Timeline

end Patchbay
