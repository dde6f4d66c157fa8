import Mathlib.Data.List.Basic

/-!
# Spans of a log

Something begins at one moment of a log, does things at later moments and ends at another, and meanwhile
more of the same kind may begin and end. Each is known by the place of its beginning. What is to hold of
a whole log is put together from its stretches: in each stretch everything that begins there obeys the
law, and of what began before only one goes on.
-/

namespace Patchbay

/-- What an event is to spans: what begins with it, what it does as part of the span that began at a
place, and with what it ends that span. -/
structure Spans (E X A B : Type) where
  begins? : E → Option X
  does? : Nat → E → Option A
  ends? : Nat → E → Option B

namespace Spans

variable {E X A B : Type} (spans : Spans E X A B) (law : List E → X → List A → List B → Prop)

/-- The law holds of what begins somewhere in a stretch of the log: of all that came before it, of what
it does in the rest of the stretch, and of what it ends with. -/
def Obeyed (log stretch : List E) : Prop :=
  ∀ before event after x, stretch = before ++ event :: after → spans.begins? event = some x →
    law (log ++ before) x (after.filterMap (spans.does? (log ++ before).length))
      (after.filterMap (spans.ends? (log ++ before).length))

/-- Whatever a stretch of the log has as part of a span that did not begin before, is part of one that
begins in the stretch. -/
def Rooted (log stretch : List E) : Prop :=
  ∀ origin, log.length ≤ origin → ∀ event ∈ stretch, (spans.does? origin event).isSome →
    ∃ first, stretch[origin - log.length]? = some first ∧ (spans.begins? first).isSome

/-- A stretch in which the law is obeyed and which of the spans before continues at most one. -/
structure Continues (log stretch : List E) (start : Nat) (done : List A) (ended : List B) : Prop where
  earlier : ∀ origin < log.length,
    stretch.filterMap (spans.does? origin) = (if origin = start then done else []) ∧
      stretch.filterMap (spans.ends? origin) = if origin = start then ended else []
  obeyed : spans.Obeyed law log stretch
  rooted : spans.Rooted log stretch

variable {spans law} {log stretch more : List E} {start : Nat} {done others : List A} {ended ends : List B}

theorem Continues.nil (log : List E) (start : Nat) : spans.Continues law log [] start [] [] where
  earlier origin _ := by simp
  obeyed before event after x h := by simp at h
  rooted origin _ event hevent := absurd hevent List.not_mem_nil

/-- An event with which nothing begins. -/
theorem Continues.single {event : E} (hbegins : spans.begins? event = none)
    (hdone : ∀ origin, (spans.does? origin event).toList = if origin = start then done else [])
    (hended : ∀ origin, (spans.ends? origin event).toList = if origin = start then ended else [])
    (hstart : start < log.length ∨ done = []) : spans.Continues law log [event] start done ended where
  earlier origin _ := by
    rw [← hdone origin, ← hended origin, List.filterMap_cons, List.filterMap_cons]
    cases spans.does? origin event <;> cases spans.ends? origin event <;> exact ⟨rfl, rfl⟩
  obeyed before first after x h hx := by
    rcases List.singleton_eq_append_iff.mp h with ⟨-, h⟩ | ⟨-, h⟩
    · rw [(List.cons.inj h).1, hbegins] at hx
      cases hx
    · simp at h
  rooted origin horigin other hother hdoes := by
    obtain rfl := List.mem_singleton.mp hother
    have hnone : (if origin = start then done else []) = [] := by
      rw [ite_eq_right_iff]
      rintro rfl
      exact hstart.resolve_left (Nat.not_lt.mpr horigin)
    rw [← hdone origin, Option.toList_eq_nil_iff] at hnone
    rw [hnone] at hdoes
    cases hdoes

/-- An event that is part of no span. -/
theorem Continues.idle {event : E} (hbegins : spans.begins? event = none)
    (hdone : ∀ origin, spans.does? origin event = none)
    (hended : ∀ origin, spans.ends? origin event = none) (start : Nat) :
    spans.Continues law log [event] start [] [] := by
  apply Continues.single hbegins _ _ (Or.inr rfl)
  · intro origin
    rw [hdone, ite_self, Option.toList_none]
  · intro origin
    rw [hended, ite_self, Option.toList_none]

/-- One stretch after the other. What begins in the first has ended before the second. -/
theorem Continues.append (h : spans.Continues law log stretch start done ended)
    (hmore : spans.Continues law (log ++ stretch) more start others ends)
    (hstart : start < log.length ∨ others = [] ∧ ends = []) :
    spans.Continues law log (stretch ++ more) start (done ++ others) (ended ++ ends) where
  earlier origin horigin := by
    obtain ⟨hdone, hended⟩ := h.earlier origin horigin
    obtain ⟨hothers, hends⟩ := hmore.earlier origin (by rw [List.length_append]; omega)
    rw [List.filterMap_append, List.filterMap_append, hdone, hothers, hended, hends]
    split <;> exact ⟨rfl, rfl⟩
  obeyed before event after x heq hx := by
    rcases List.append_eq_append_iff.mp heq with ⟨middle, rfl, hmiddle⟩ | ⟨middle, hstretch, hcons⟩
    · -- It begins in the second stretch.
      rw [← List.append_assoc]
      exact hmore.obeyed middle event after x hmiddle hx
    · rcases List.cons_eq_append_iff.mp hcons with ⟨rfl, hmiddle⟩ | ⟨rest, rfl, rfl⟩
      · rw [List.append_nil] at hstretch
        have hlaw := hmore.obeyed [] event after x hmiddle hx
        rwa [List.append_nil, hstretch] at hlaw
      · -- It begins in the first stretch.
        have hlaw := h.obeyed before event rest x hstretch hx
        obtain ⟨hothers, hends⟩ := hmore.earlier (log ++ before).length (by simp [hstretch])
        have hnone : (log ++ before).length = start → others = [] ∧ ends = [] := by
          rintro rfl
          exact hstart.resolve_left (by simp)
        rw [ite_eq_right_iff.mpr fun heq => (hnone heq).1] at hothers
        rw [ite_eq_right_iff.mpr fun heq => (hnone heq).2] at hends
        rwa [List.filterMap_append, List.filterMap_append, hothers, hends, List.append_nil,
          List.append_nil]
  rooted origin horigin event hevent hdoes := by
    rcases List.mem_append.mp hevent with hevent | hevent
    · obtain ⟨first, hfirst, hbegins⟩ := h.rooted origin horigin event hevent hdoes
      refine ⟨first, ?_, hbegins⟩
      rw [List.getElem?_append_left (List.getElem?_eq_some_iff.mp hfirst).1, hfirst]
    · by_cases hlater : origin < (log ++ stretch).length
      · -- The second stretch has nothing of what begins in the first.
        have hnone : more.filterMap (spans.does? origin) = [] := by
          rw [(hmore.earlier origin hlater).1, ite_eq_right_iff]
          rintro rfl
          exact (hstart.resolve_left (Nat.not_lt.mpr horigin)).1
        rw [List.filterMap_eq_nil_iff.mp hnone event hevent] at hdoes
        cases hdoes
      · obtain ⟨first, hfirst, hbegins⟩ :=
          hmore.rooted origin (Nat.le_of_not_lt hlater) event hevent hdoes
        rw [List.length_append] at hfirst hlater
        refine ⟨first, ?_, hbegins⟩
        rw [List.getElem?_append_right (by omega), ← hfirst]
        congr 1
        omega

/-- A whole span, from its beginning to its end. -/
theorem Continues.whole {event : E} {x : X} (hbegins : spans.begins? event = some x)
    (hdoes : ∀ origin, spans.does? origin event = none)
    (hends : ∀ origin, spans.ends? origin event = none) (hlaw : law log x done ended)
    (h : spans.Continues law (log ++ [event]) stretch log.length done ended) (start : Nat) :
    spans.Continues law log (event :: stretch) start [] [] where
  earlier origin horigin := by
    obtain ⟨hdone, hended⟩ := h.earlier origin (by simp; omega)
    rw [if_neg (Nat.ne_of_lt horigin)] at hdone hended
    rw [List.filterMap_cons_none (hdoes origin), List.filterMap_cons_none (hends origin), hdone, hended,
      ite_self, ite_self]
    exact ⟨rfl, rfl⟩
  obeyed before other after y heq hy := by
    rcases List.cons_eq_append_iff.mp heq with ⟨rfl, hcons⟩ | ⟨rest, rfl, hrest⟩
    · -- This is the span itself.
      obtain ⟨rfl, rfl⟩ := List.cons.inj hcons
      obtain rfl := Option.some.inj (hbegins.symm.trans hy)
      obtain ⟨hdone, hended⟩ := h.earlier log.length (by simp)
      rw [if_pos rfl] at hdone hended
      rwa [List.append_nil, hdone, hended]
    · have hlater := h.obeyed rest other after y hrest hy
      rwa [List.append_assoc] at hlater
  rooted origin horigin other hother hdone := by
    rcases Nat.eq_or_lt_of_le horigin with rfl | hlater
    · exact ⟨event, by simp, by rw [hbegins]; rfl⟩
    · rcases List.mem_cons.mp hother with rfl | hother
      · rw [hdoes origin] at hdone
        cases hdone
      · have hlength : (log ++ [event]).length ≤ origin := by
          rw [List.length_append]
          exact hlater
        obtain ⟨first, hfirst, hstarts⟩ := h.rooted origin hlength other hother hdone
        rw [List.length_append, List.length_singleton] at hfirst hlength
        have hshift : origin - log.length = origin - (log.length + 1) + 1 := by omega
        exact ⟨first, by rw [hshift, List.getElem?_cons_succ, hfirst], hstarts⟩

end Spans

end Patchbay
