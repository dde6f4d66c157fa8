import Patchbay.Keyed
import Patchbay.Timeline.Timekeeper

/-!
# Agendas

A timekeeper with labelled jobs. A job may belong to an owner, and then it is done only if that owner is
still there when its time has come. An owner who comes back under an old name is another owner.

What is due is done at once. Other than that, time passes only when someone waits for jobs to be done.
-/

namespace Patchbay

/-- An owner: a name, and a number that tells apart the owners who had it. -/
structure Owner where
  name : String
  number : Nat
deriving DecidableEq, Repr, Inhabited

/-- A labelled job, with the owner it belongs to, if any. -/
structure Job (L : Type) where
  owner? : Option Owner
  label : L
deriving Repr, Inhabited

/-- Jobs on the timeline of a timekeeper, the owners that exist, and the jobs done so far, in order. -/
structure Agenda (L : Type) where
  timeline : Timekeeper (Job L) := {}
  owners : Keyed Owner := []
  known : Nat := 0
  done : List (Job L) := []
deriving Inhabited

namespace Agenda

variable {L : Type}

/-- Decide whether a job is done when its time has come. -/
def stands (agenda : Agenda L) (job : Job L) : Bool :=
  match job.owner? with
  | some owner => agenda.owners.get? owner.name == some owner
  | none => true

/-- Go on with the timeline after jobs have been started on it. -/
def follow (agenda : Agenda L) (timeline : Timekeeper (Job L)) (started : List (Timed (Job L))) :
    Agenda L :=
  { agenda with timeline, done := agenda.done ++ (started.map Timed.task).filter agenda.stands }

/-- Submit a job for an owner or for nobody, and have everything done that is due. -/
def enter (agenda : Agenda L) (wait : Nat) (job : Job L) : Agenda L × Bool :=
  let (timeline, accepted) := agenda.timeline.request wait job
  let (settled, started) := timeline.settle
  (agenda.follow settled started, accepted)

/-- Submit a job that belongs to nobody. -/
def submit (agenda : Agenda L) (wait : Nat) (label : L) : Agenda L × Bool :=
  agenda.enter wait ⟨none, label⟩

/-- The owner of a name, who comes into being if there is none. -/
def owner (agenda : Agenda L) (name : String) : Agenda L × Owner :=
  match agenda.owners.get? name with
  | some owner => (agenda, owner)
  | none =>
    let owner : Owner := ⟨name, agenda.known⟩
    ({ agenda with owners := agenda.owners.set name owner, known := agenda.known + 1 }, owner)

/-- Submit a job of an owner. -/
def submitFor (agenda : Agenda L) (name : String) (wait : Nat) (label : L) : Agenda L × Bool :=
  let (agenda, owner) := agenda.owner name
  agenda.enter wait ⟨some owner, label⟩

/-- Let time pass until `count` jobs have been done, or no job is left. -/
def wait (agenda : Agenda L) (count : Nat) : Agenda L :=
  if count ≤ agenda.done.length then agenda
  else
    match _h : agenda.timeline.work? with
    | some (timeline, move) => wait (agenda.follow timeline move.started?.toList) count
    | none =>
      match _hqueue : agenda.timeline.queue with
      | [] => agenda
      | first :: _ =>
        if agenda.timeline.now < first.deadline then
          wait (agenda.follow (agenda.timeline.lag (first.deadline - agenda.timeline.now)) []) count
        else agenda
termination_by
  2 * agenda.timeline.effort +
    (!Timekeeper.isDue agenda.timeline.queue agenda.timeline.now).toNat
decreasing_by
  · have hless := Timekeeper.effort_lt_of_work? _h
    have hbit := Bool.toNat_le (!Timekeeper.isDue timeline.queue timeline.now)
    simp only [follow]
    omega
  · next hearly =>
    have hless := agenda.timeline.effortFor_lag_le agenda.timeline.inbox.length
      (first.deadline - agenda.timeline.now)
    have hbefore : Timekeeper.isDue agenda.timeline.queue agenda.timeline.now = false := by
      simpa [_hqueue, Timekeeper.isDue] using hearly
    have hafter : Timekeeper.isDue agenda.timeline.queue first.deadline = true := by
      simp [_hqueue, Timekeeper.isDue]
    simp only [follow, Timekeeper.lag, Timekeeper.effort, Nat.add_sub_cancel' (Nat.le_of_lt hearly), hbefore,
      hafter] at hless ⊢
    exact Nat.add_lt_add_of_le_of_lt (Nat.mul_le_mul_left 2 hless) Nat.zero_lt_one

/-- Drop an owner; the flag tells whether there was one. -/
def dropOwner (agenda : Agenda L) (name : String) : Agenda L × Bool :=
  ({ agenda with owners := agenda.owners.erase name }, agenda.owners.has name)

end Agenda

end Patchbay
