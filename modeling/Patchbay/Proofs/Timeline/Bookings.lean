import Patchbay.Timeline.Agenda
import Patchbay.Proofs.Timeline.Promptness

/-!
# Jobs on an agenda

An agenda leaves the starting of its jobs to its timekeeper: whatever is done with it is a run of the
timekeeper, and the jobs that get done are those that are started on it and whose owner is there.
-/

namespace Patchbay.Agenda

open Timekeeper

variable {L : Type} {agenda : Agenda L}

/-- A run of an agenda's timekeeper, with those jobs done that are started and stand. -/
def Follows (agenda later : Agenda L) : Prop :=
  later.owners = agenda.owners ∧ ∃ log, Run agenda.timeline log later.timeline ∧
    later.done = agenda.done ++ ((started log).map Timed.task).filter agenda.stands

theorem Follows.trans {middle later : Agenda L} (hfirst : agenda.Follows middle) (hrest : middle.Follows later) :
    agenda.Follows later := by
  obtain ⟨howners, before, hbefore, hdone⟩ := hfirst
  obtain ⟨hsame, after, hafter, hmore⟩ := hrest
  have hstands : middle.stands = agenda.stands := by
    funext job
    simp only [stands, howners]
  refine ⟨hsame.trans howners, _, hbefore.trans hafter, ?_⟩
  rw [hmore, hdone, hstands, started_append, List.map_append, List.filter_append, List.append_assoc]

/-- A job is entered and what is due is done. -/
theorem follows_enter (agenda : Agenda L) (wait : Nat) (job : Job L) :
    agenda.Follows (agenda.enter wait job).1 := by
  obtain ⟨-, log, hrun, hstarted, -⟩ := settle_run (agenda.timeline.request wait job).1
  have hasked : Run agenda.timeline [_] (agenda.timeline.request wait job).1 := .step .start (.ask wait job)
  refine ⟨rfl, _, hasked.trans hrun, ?_⟩
  rw [started_append, hstarted]
  rfl

theorem follows_of_work? {timeline : Timekeeper (Job L)} {move : Move (Job L)}
    (h : agenda.timeline.work? = some (timeline, move)) :
    agenda.Follows (agenda.follow timeline move.started?.toList) := by
  refine ⟨rfl, _, Run.start.turn h, ?_⟩
  cases hstarted : move.started? <;> simp [follow, started, Timekeeper.Happening.started?, hstarted]

theorem follows_lag (agenda : Agenda L) (wait : Nat) :
    agenda.Follows (agenda.follow (agenda.timeline.lag wait) []) :=
  ⟨rfl, _, Run.start.step (.pass wait), rfl⟩

/-- Time passes until jobs have been done. -/
theorem follows_wait (agenda : Agenda L) (count : Nat) : agenda.Follows (agenda.wait count) := by
  have hstill (agenda : Agenda L) : agenda.Follows agenda := ⟨rfl, [], .start, by simp [started]⟩
  fun_induction wait agenda count with
  | case1 agenda => exact hstill agenda
  | case2 agenda _ timeline move hwork ih => exact (follows_of_work? hwork).trans ih
  | case3 agenda => exact hstill agenda
  | case4 agenda _ _ first _ _ _ ih => exact (follows_lag agenda _).trans ih
  | case5 agenda => exact hstill agenda

end Patchbay.Agenda
