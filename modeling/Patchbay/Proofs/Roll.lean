import Mathlib.Data.List.Pairwise

/-!
# Rolls

Who is on a list at some moment, told from the log of what happened until then. Events put keys on the
list and take them off again; a key that is put on a second time keeps its first place. So the list has
each key once, in the order of the first event that put it on and still holds.
-/

namespace Patchbay

/-- Which keys an event puts on a list, and which it takes off. -/
structure RollRule (E K : Type) where
  joins : E → K → Prop
  leaves : E → K → Prop

namespace RollRule

variable {E K : Type} (rule : RollRule E K)

/-- The event at a place of the log put the key on the list, and none since has taken it off. -/
def Stands (log : List E) (key : K) (i : Nat) : Prop :=
  (∃ event, log[i]? = some event ∧ rule.joins event key) ∧
    ∀ j event, i < j → log[j]? = some event → ¬ rule.leaves event key

/-- The list is the one that the log leads to: its keys are those for which some event stands, in the
order of the first such event. -/
structure Roll (log : List E) (keys : List K) : Prop where
  mem_iff : ∀ key, key ∈ keys ↔ ∃ i, rule.Stands log key i
  ordered : keys.Pairwise fun first second =>
    ∃ i, rule.Stands log first i ∧ ∀ j, rule.Stands log second j → i < j

variable {rule} {log : List E} {keys : List K} {event : E} {key : K}

theorem Stands.lt {i : Nat} (h : rule.Stands log key i) : i < log.length := by
  obtain ⟨⟨event, hevent, -⟩, -⟩ := h
  exact (List.getElem?_eq_some_iff.mp hevent).1

/-- One more event: what stood stands unless the event takes the key off, and the event itself stands
for the keys that it puts on. -/
theorem stands_concat {i : Nat} : rule.Stands (log ++ [event]) key i ↔
    rule.Stands log key i ∧ ¬ rule.leaves event key ∨ i = log.length ∧ rule.joins event key := by
  constructor
  · rintro ⟨⟨found, hfound, hjoins⟩, hstays⟩
    obtain ⟨hlt, -⟩ := List.getElem?_eq_some_iff.mp hfound
    rw [List.length_append, List.length_singleton] at hlt
    rcases Nat.lt_succ_iff_lt_or_eq.mp hlt with hlt | rfl
    · rw [List.getElem?_append_left hlt] at hfound
      refine Or.inl ⟨⟨⟨found, hfound, hjoins⟩, ?_⟩, hstays _ event hlt (by simp)⟩
      intro j other hj hother
      apply hstays j other hj
      rw [List.getElem?_append_left (List.getElem?_eq_some_iff.mp hother).1, hother]
    · rw [List.getElem?_append_right (Nat.le_refl _), Nat.sub_self, List.getElem?_cons_zero,
        Option.some.injEq] at hfound
      exact Or.inr ⟨rfl, hfound ▸ hjoins⟩
  · rintro (⟨⟨⟨found, hfound, hjoins⟩, hstays⟩, hkept⟩ | ⟨rfl, hjoins⟩)
    · obtain ⟨hlt, -⟩ := List.getElem?_eq_some_iff.mp hfound
      refine ⟨⟨found, by rw [List.getElem?_append_left hlt, hfound], hjoins⟩, ?_⟩
      intro j other hj hother
      by_cases hlast : j < log.length
      · rw [List.getElem?_append_left hlast] at hother
        exact hstays j other hj hother
      · rw [List.getElem?_append_right (Nat.le_of_not_lt hlast)] at hother
        obtain rfl := List.mem_singleton.mp (List.mem_of_getElem? hother)
        exact hkept
    · refine ⟨⟨event, by simp, hjoins⟩, ?_⟩
      intro j other hj hother
      have hlt := (List.getElem?_eq_some_iff.mp hother).1
      rw [List.length_append, List.length_singleton] at hlt
      omega

/-- Nobody is on the list as long as nobody has joined. -/
theorem Roll.empty (h : ∀ event ∈ log, ∀ key, ¬ rule.joins event key) : rule.Roll log [] where
  mem_iff key := by
    refine ⟨fun hmem => absurd hmem List.not_mem_nil, ?_⟩
    rintro ⟨i, ⟨event, hevent, hjoins⟩, -⟩
    exact absurd hjoins (h event (List.mem_of_getElem? hevent) key)
  ordered := List.Pairwise.nil

/-- Nobody is on the list twice. -/
theorem Roll.nodup (h : rule.Roll log keys) : keys.Nodup := by
  apply h.ordered.imp
  rintro first _ ⟨i, hstands, hfirst⟩ rfl
  exact Nat.lt_irrefl i (hfirst i hstands)

/-- An event that takes keys off leaves the others in their order. -/
theorem Roll.leave (h : rule.Roll log keys) {kept : K → Bool}
    (hjoins : ∀ key, ¬ rule.joins event key)
    (hkept : ∀ key, kept key = true ↔ ¬ rule.leaves event key) :
    rule.Roll (log ++ [event]) (keys.filter kept) where
  mem_iff key := by
    simp only [List.mem_filter, h.mem_iff, hkept, stands_concat, hjoins, and_false, or_false,
      exists_and_right]
  ordered := by
    apply (h.ordered.filter kept).imp_of_mem
    rintro first second hfirst - ⟨i, hstands, hbefore⟩
    have hstays : ¬ rule.leaves event first := (hkept first).mp (List.mem_filter.mp hfirst).2
    refine ⟨i, stands_concat.mpr (Or.inl ⟨hstands, hstays⟩), ?_⟩
    intro j hj
    rcases stands_concat.mp hj with ⟨hj, -⟩ | ⟨-, hj⟩
    · exact hbefore j hj
    · exact absurd hj (hjoins second)

/-- An event that concerns nobody leaves the list as it is. -/
theorem Roll.idle (h : rule.Roll log keys) (hjoins : ∀ key, ¬ rule.joins event key)
    (hleaves : ∀ key, ¬ rule.leaves event key) : rule.Roll (log ++ [event]) keys := by
  have hall : rule.Roll (log ++ [event]) (keys.filter fun _ => true) :=
    h.leave hjoins (by simp [hleaves])
  rwa [List.filter_eq_self.mpr fun _ _ => rfl] at hall

/-- An event that puts one key on puts it at the end, unless it is there already. -/
theorem Roll.join [DecidableEq K] (h : rule.Roll log keys)
    (hjoins : ∀ other, rule.joins event other ↔ other = key)
    (hleaves : ∀ other, ¬ rule.leaves event other) :
    rule.Roll (log ++ [event]) (if key ∈ keys then keys else keys ++ [key]) := by
  have hold : ∀ first second, (∃ i, rule.Stands log first i ∧
      ∀ j, rule.Stands log second j → i < j) →
      ∃ i, rule.Stands (log ++ [event]) first i ∧
        ∀ j, rule.Stands (log ++ [event]) second j → i < j := by
    rintro first second ⟨i, hstands, hbefore⟩
    refine ⟨i, stands_concat.mpr (Or.inl ⟨hstands, hleaves first⟩), ?_⟩
    intro j hj
    rcases stands_concat.mp hj with ⟨hj, -⟩ | ⟨rfl, -⟩
    · exact hbefore j hj
    · exact hstands.lt
  have hmem : ∀ other, (∃ i, rule.Stands (log ++ [event]) other i) ↔
      other ∈ keys ∨ other = key := by
    intro other
    simp only [stands_concat, hleaves, not_false_iff, and_true, hjoins, exists_or, h.mem_iff,
      exists_eq_left]
  split
  next hin =>
    refine ⟨fun other => ?_, h.ordered.imp fun hpair => hold _ _ hpair⟩
    rw [hmem]
    exact ⟨Or.inl, fun hor => hor.elim id fun heq => heq ▸ hin⟩
  next hout =>
    refine ⟨fun other => by rw [hmem, List.mem_append, List.mem_singleton], ?_⟩
    refine List.pairwise_append.mpr ⟨h.ordered.imp fun hpair => hold _ _ hpair,
      List.pairwise_singleton _ _, ?_⟩
    -- The new key stands for this event only, which comes after all others.
    intro first hfirst second hsecond
    obtain rfl := List.mem_singleton.mp hsecond
    obtain ⟨i, hstands⟩ := (h.mem_iff first).mp hfirst
    refine ⟨i, stands_concat.mpr (Or.inl ⟨hstands, hleaves first⟩), ?_⟩
    intro j hj
    rcases stands_concat.mp hj with ⟨hj, -⟩ | ⟨rfl, -⟩
    · exact absurd ((h.mem_iff second).mpr ⟨j, hj⟩) hout
    · exact hstands.lt

end RollRule

end Patchbay
