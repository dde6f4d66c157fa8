import Patchbay.Timeline.Basic
import Mathlib.Data.List.Perm.Basic

/-!
# Tasks that wait

A task waits on the timeline from its submission until it is taken, whatever else is submitted and
whatever time passes, and the one that is taken is due no later than any other.
-/

namespace Patchbay.Timeline

variable {τ : Type} {timeline later : Timeline τ} {entry : Timed τ} {entries : List (Timed τ)}

/-- What can happen to a timeline that is not shut down: a task is submitted, time passes with nothing
done, or the task that is due first is taken. -/
inductive Moves : Timeline τ → Timeline τ → Prop where
  | schedule (timeline : Timeline τ) (wait : Nat) (task : τ) :
    Moves timeline (timeline.schedule wait task).1
  | lag (timeline : Timeline τ) (wait : Nat) :
    Moves timeline { timeline with now := timeline.now + wait }
  | next {timeline later : Timeline τ} {entry : Timed τ}
    (hnext : timeline.next? = some (entry, later)) : Moves timeline later

theorem insert_perm (entry : Timed τ) (entries : List (Timed τ)) :
    (insert entry entries).Perm (entry :: entries) := by
  induction entries with
  | nil => exact .refl _
  | cons first rest ih =>
    unfold insert
    split
    · exact (ih.cons first).trans (.swap entry first rest)
    · exact .refl _

theorem mem_insert {other : Timed τ} : other ∈ insert entry entries ↔ other = entry ∨ other ∈ entries := by
  rw [(insert_perm entry entries).mem_iff, List.mem_cons]

theorem sorted_insert (h : entries.Pairwise fun first second => first.deadline ≤ second.deadline) :
    (insert entry entries).Pairwise fun first second => first.deadline ≤ second.deadline := by
  induction entries with
  | nil => exact List.pairwise_singleton _ _
  | cons first rest ih =>
    obtain ⟨hfirst, hrest⟩ := List.pairwise_cons.mp h
    unfold insert
    split
    · next hle =>
      refine List.pairwise_cons.mpr ⟨fun other hother => ?_, ih hrest⟩
      rcases mem_insert.mp hother with rfl | hother
      · exact hle
      · exact hfirst other hother
    · next hlater =>
      refine List.pairwise_cons.mpr ⟨fun other hother => ?_, h⟩
      rcases List.mem_cons.mp hother with rfl | hother
      · exact Nat.le_of_lt (Nat.not_le.mp hlater)
      · exact Nat.le_trans (Nat.le_of_lt (Nat.not_le.mp hlater)) (hfirst other hother)

/-- Tasks wait in the order of their deadlines, each with a number of its own, and the timeline takes
more. -/
structure Orderly (timeline : Timeline τ) : Prop where
  sorted : timeline.queue.Pairwise fun first second => first.deadline ≤ second.deadline
  distinct : (timeline.queue.map Timed.number).Nodup
  given : ∀ entry ∈ timeline.queue, entry.number < timeline.submitted
  running : timeline.closed = false

theorem Orderly.empty : Orderly ({} : Timeline τ) := ⟨.nil, .nil, nofun, rfl⟩

/-- What submitting a task does to a timeline that takes tasks. -/
theorem Orderly.schedule_eq (h : timeline.Orderly) (wait : Nat) (task : τ) :
    timeline.schedule wait task =
      ({ timeline with
          queue := insert ⟨timeline.now + min wait longestWait, timeline.submitted, task⟩ timeline.queue
          submitted := timeline.submitted + 1 }, true) := by
  rw [schedule, h.running]
  rfl

/-- What taking the first task does. -/
theorem next?_eq_some (h : timeline.next? = some (entry, later)) :
    timeline.queue = entry :: later.queue ∧
      later = { timeline with
        now := max timeline.now entry.deadline
        queue := later.queue } := by
  unfold next? at h
  split at h
  · cases h
  · next first rest hqueue =>
    obtain ⟨rfl, rfl⟩ := Prod.mk.inj (Option.some.inj h)
    exact ⟨hqueue, rfl⟩

theorem Moves.orderly (hmoves : timeline.Moves later) (h : timeline.Orderly) : later.Orderly := by
  cases hmoves with
  | schedule wait task =>
    rw [h.schedule_eq]
    refine ⟨sorted_insert h.sorted, ?_, fun other hother => ?_, h.running⟩
    · refine ((insert_perm _ _).map Timed.number).nodup_iff.mpr (List.nodup_cons.mpr ⟨?_, h.distinct⟩)
      intro hmem
      obtain ⟨other, hother, heq⟩ := List.mem_map.mp hmem
      exact Nat.ne_of_lt (h.given other hother) heq
    · rcases mem_insert.mp hother with rfl | hother
      · exact Nat.lt_succ_self _
      · exact Nat.lt_succ_of_lt (h.given other hother)
  | lag wait => exact ⟨h.sorted, h.distinct, h.given, h.running⟩
  | next hnext =>
    obtain ⟨hqueue, hlater⟩ := next?_eq_some hnext
    have hsorted := h.sorted
    have hdistinct := h.distinct
    rw [hqueue] at hsorted hdistinct
    refine ⟨(List.pairwise_cons.mp hsorted).2, (List.nodup_cons.mp hdistinct).2, fun other hother => ?_, ?_⟩
    · rw [hlater]
      exact h.given other (hqueue ▸ List.mem_cons_of_mem _ hother)
    · rw [hlater]
      exact h.running

/-- A task that waits goes on waiting, if it is not the one that is taken. -/
theorem Moves.waits (hmoves : timeline.Moves later) (hentry : entry ∈ timeline.queue) :
    entry ∈ later.queue ∨ timeline.next? = some (entry, later) := by
  cases hmoves with
  | schedule wait task =>
    refine Or.inl ?_
    unfold Timeline.schedule
    split
    · exact hentry
    · exact mem_insert.mpr (Or.inr hentry)
  | lag wait => exact Or.inl hentry
  | next hnext =>
    obtain ⟨hqueue, -⟩ := next?_eq_some hnext
    rw [hqueue] at hentry
    rcases List.mem_cons.mp hentry with rfl | hentry
    · exact Or.inr hnext
    · exact Or.inl hentry

end Patchbay.Timeline
