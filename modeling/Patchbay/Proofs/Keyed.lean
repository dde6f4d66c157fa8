import Mathlib.Data.List.Nodup
import Patchbay.Keyed

/-!
# Distinct keys

Storing under new keys appends the entries, so a list of entries with distinct keys is stored as it is,
and each of its entries is found under its key. Storing several lists of entries one after the other is
storing what they make together. Changing the values under keys that are present leaves the keys as they
are, and changing them one key after the other changes each value once.
-/

namespace Patchbay.Keyed

variable {α : Type}

/-- A new key goes to the end. -/
theorem set_of_notMem {entries : Keyed α} {key : String} (h : key ∉ entries.keys) (value : α) :
    entries.set key value = entries ++ [(key, value)] := by
  induction entries with
  | nil => rfl
  | cons entry rest ih =>
    rw [keys, List.map_cons, List.mem_cons, not_or] at h
    obtain ⟨hne, hrest⟩ := h
    rw [set, if_neg (Ne.symm hne), ih hrest, List.cons_append]

/-- Entries with distinct new keys are stored as they are. -/
theorem merge_of_nodup {entries more : Keyed α} (h : (keys (entries ++ more)).Nodup) :
    entries.merge more = entries ++ more := by
  induction more generalizing entries with
  | nil => simp [merge]
  | cons entry more ih =>
    have hnew : entry.1 ∉ entries.keys := by
      intro hmem
      rw [keys, List.map_append, List.map_cons] at h
      exact (List.nodup_append.mp h).2.2 _ hmem _ List.mem_cons_self rfl
    have hentries : entries.set entry.1 entry.2 = entries ++ [entry] := set_of_notMem hnew entry.2
    have hsplit : entries ++ entry :: more = entries ++ [entry] ++ more := by simp
    rw [merge, List.foldl_cons, hentries, ← merge, ih (hsplit ▸ h), hsplit]

/-- So are entries with distinct keys when there are none yet. -/
theorem ofList_of_nodup {entries : Keyed α} (h : entries.keys.Nodup) : ofList entries = entries :=
  merge_of_nodup h

/-- Among distinct keys every entry is found. -/
theorem get?_of_mem {entries : Keyed α} (h : entries.keys.Nodup) {entry : String × α}
    (hmem : entry ∈ entries) : entries.get? entry.1 = some entry.2 := by
  induction entries with
  | nil => cases hmem
  | cons first rest ih =>
    rw [keys, List.map_cons, List.nodup_cons] at h
    rcases List.mem_cons.mp hmem with rfl | hmem
    · rw [get?, if_pos rfl]
    · have hne : first.1 ≠ entry.1 := fun heq => h.1 (heq ▸ List.mem_map_of_mem hmem)
      rw [get?, if_neg hne, ih h.2 hmem]

/-- Nothing is found under a key that is not there. -/
theorem get?_eq_none {entries : Keyed α} {key : String} (h : key ∉ entries.keys) :
    entries.get? key = none := by
  induction entries with
  | nil => rfl
  | cons entry rest ih =>
    rw [keys, List.map_cons, List.mem_cons, not_or] at h
    rw [get?, if_neg (Ne.symm h.1), ih h.2]

/-- A key under which nothing is found is not there. -/
theorem notMem_keys {entries : Keyed α} {key : String} (h : entries.get? key = none) :
    key ∉ entries.keys := by
  induction entries with
  | nil => exact List.not_mem_nil
  | cons entry rest ih =>
    by_cases hkey : entry.1 = key
    · rw [get?, if_pos hkey] at h
      cases h
    · rw [get?, if_neg hkey] at h
      rw [keys, List.map_cons, List.mem_cons, not_or]
      exact ⟨Ne.symm hkey, ih h⟩

/-- What is found under a key is an entry. -/
theorem mem_of_get? {entries : Keyed α} {key : String} {value : α}
    (h : entries.get? key = some value) : (key, value) ∈ entries := by
  induction entries with
  | nil => cases h
  | cons entry rest ih =>
    by_cases hkey : entry.1 = key
    · rw [get?, if_pos hkey, Option.some.injEq] at h
      rw [← hkey, ← h]
      exact List.mem_cons_self
    · rw [get?, if_neg hkey] at h
      exact List.mem_cons_of_mem entry (ih h)

/-- A key is looked for among the first entries, and then among the others. -/
theorem get?_append (entries more : Keyed α) (key : String) :
    get? (entries ++ more) key = (entries.get? key).or (more.get? key) := by
  induction entries with
  | nil => rfl
  | cons entry rest ih =>
    rw [List.cons_append, get?, get?]
    split
    · rfl
    · exact ih

/-- A key is found if it is there. -/
theorem has_iff {entries : Keyed α} {key : String} : entries.has key = true ↔ key ∈ entries.keys := by
  rw [has, Option.isSome_iff_exists]
  refine ⟨fun ⟨value, hvalue⟩ => List.mem_map_of_mem (mem_of_get? hvalue), fun hmem => ?_⟩
  by_contra hnone
  exact notMem_keys (Option.eq_none_iff_forall_ne_some.mpr fun value hvalue => hnone ⟨value, hvalue⟩) hmem

/-- An entry that is there after a value was stored was there before, or is the one stored. -/
theorem mem_set {entries : Keyed α} {key : String} {value : α} {entry : String × α}
    (h : entry ∈ entries.set key value) : entry ∈ entries ∨ entry = (key, value) := by
  induction entries with
  | nil => exact Or.inr (List.mem_singleton.mp h)
  | cons first rest ih =>
    by_cases hkey : first.1 = key
    · rw [set, if_pos hkey] at h
      rcases List.mem_cons.mp h with rfl | hrest
      · exact Or.inr (by rw [hkey])
      · exact Or.inl (List.mem_cons_of_mem _ hrest)
    · rw [set, if_neg hkey] at h
      rcases List.mem_cons.mp h with rfl | hrest
      · exact Or.inl List.mem_cons_self
      · exact (ih hrest).imp_left (List.mem_cons_of_mem _)

/-- Distinct keys stay distinct. -/
theorem nodup_set {entries : Keyed α} (h : entries.keys.Nodup) (key : String) (value : α) :
    (entries.set key value).keys.Nodup := by
  induction entries with
  | nil => exact List.nodup_singleton key
  | cons first rest ih =>
    rw [keys, List.map_cons, List.nodup_cons] at h
    by_cases hkey : first.1 = key
    · rw [set, if_pos hkey, keys, List.map_cons, List.nodup_cons]
      exact h
    · rw [set, if_neg hkey, keys, List.map_cons, List.nodup_cons]
      refine ⟨fun hmem => ?_, ih h.2⟩
      obtain ⟨entry, hentry, heq⟩ := List.mem_map.mp hmem
      rcases mem_set hentry with hrest | rfl
      · exact h.1 (heq ▸ List.mem_map_of_mem hrest)
      · exact hkey heq.symm

/-- An entry that is there after one was removed was there before. -/
theorem mem_erase {entries : Keyed α} {key : String} {entry : String × α}
    (h : entry ∈ entries.erase key) : entry ∈ entries := by
  induction entries with
  | nil => exact h
  | cons first rest ih =>
    by_cases hkey : first.1 = key
    · rw [erase, if_pos hkey] at h
      exact List.mem_cons_of_mem _ h
    · rw [erase, if_neg hkey] at h
      rcases List.mem_cons.mp h with rfl | hrest
      · exact List.mem_cons_self
      · exact List.mem_cons_of_mem _ (ih hrest)

/-- Distinct keys stay distinct when an entry is removed. -/
theorem nodup_erase {entries : Keyed α} (h : entries.keys.Nodup) (key : String) :
    (entries.erase key).keys.Nodup := by
  induction entries with
  | nil => exact h
  | cons first rest ih =>
    rw [keys, List.map_cons, List.nodup_cons] at h
    by_cases hkey : first.1 = key
    · rw [erase, if_pos hkey]
      exact h.2
    · rw [erase, if_neg hkey, keys, List.map_cons, List.nodup_cons]
      refine ⟨fun hmem => ?_, ih h.2⟩
      obtain ⟨entry, hentry, heq⟩ := List.mem_map.mp hmem
      exact h.1 (heq ▸ List.mem_map_of_mem (mem_erase hentry))

/-- Among distinct keys the entries are what is found. -/
theorem mem_iff_get? {entries : Keyed α} (h : entries.keys.Nodup) {entry : String × α} :
    entry ∈ entries ↔ entries.get? entry.1 = some entry.2 :=
  ⟨get?_of_mem h, mem_of_get?⟩

/-- Of the entries that are kept for their values the one under a key is found if it is kept. -/
theorem get?_filter {entries : Keyed α} (h : entries.keys.Nodup) (keeps : α → Bool) (key : String) :
    get? (entries.filter fun entry => keeps entry.2) key = (entries.get? key).filter keeps := by
  induction entries with
  | nil => rfl
  | cons first rest ih =>
    rw [keys, List.map_cons, List.nodup_cons] at h
    by_cases hkey : first.1 = key
    · have hrest : get? rest key = none := get?_eq_none (hkey ▸ h.1)
      rw [get?, if_pos hkey, List.filter_cons]
      cases hkept : keeps first.2 with
      | true => simp [get?, hkey, hkept, Option.filter_some]
      | false => simp [ih h.2, hrest, hkept, Option.filter_some]
    · rw [get?, if_neg hkey, List.filter_cons]
      split
      · rw [get?, if_neg hkey, ih h.2]
      · exact ih h.2

/-- Entries with distinct keys are found after they are stored, before those that were there. -/
theorem get?_merge {more : Keyed α} (h : more.keys.Nodup) (entries : Keyed α) (key : String) :
    (entries.merge more).get? key = (more.get? key).or (entries.get? key) := by
  induction more generalizing entries with
  | nil => rfl
  | cons first rest ih =>
    rw [keys, List.map_cons, List.nodup_cons] at h
    have hstored := ih h.2 (entries.set first.1 first.2)
    rw [merge, List.foldl_cons, ← merge, hstored, get?]
    by_cases hkey : first.1 = key
    · have hrest : get? rest key = none := get?_eq_none (hkey ▸ h.1)
      rw [if_pos hkey, hrest, ← hkey, get?_set_self]
      rfl
    · rw [if_neg hkey, get?_set_of_ne _ _ hkey]

/-- Distinct keys stay distinct when more entries are stored. -/
theorem nodup_merge {entries : Keyed α} (h : entries.keys.Nodup) (more : Keyed α) :
    (entries.merge more).keys.Nodup := by
  induction more generalizing entries with
  | nil => exact h
  | cons first rest ih => exact ih (nodup_set h first.1 first.2)

/-- A value is found under its key if it is found before all values are changed. -/
theorem get?_map {β : Type} (entries : Keyed α) (f : α → β) (key : String) :
    get? (entries.map fun entry => (entry.1, f entry.2)) key = (entries.get? key).map f := by
  induction entries with
  | nil => rfl
  | cons entry rest ih =>
    simp only [List.map_cons, get?]
    split
    · rfl
    · exact ih

/-! ### Storing one list of entries after another -/

/-- The first entry is stored before the others. -/
theorem merge_cons (entries : Keyed α) (first : String × α) (rest : Keyed α) :
    entries.merge (first :: rest) = (entries.set first.1 first.2).merge rest := rfl

/-- A key that is present stays where it is. -/
theorem keys_set_of_mem {entries : Keyed α} {key : String} (h : key ∈ entries.keys) (value : α) :
    (entries.set key value).keys = entries.keys := by
  induction entries with
  | nil => cases h
  | cons entry rest ih =>
    by_cases hkey : entry.1 = key
    · rw [set, if_pos hkey]
      rfl
    · rw [keys, List.map_cons, List.mem_cons] at h
      rw [set, if_neg hkey, keys, List.map_cons, ← keys, ih (h.resolve_left (Ne.symm hkey))]
      rfl

/-- No key is lost when a value is stored. -/
theorem keys_subset_set (entries : Keyed α) (key : String) (value : α) :
    entries.keys ⊆ (entries.set key value).keys := by
  by_cases h : key ∈ entries.keys
  · rw [keys_set_of_mem h]
    exact List.Subset.refl _
  · rw [set_of_notMem h, keys, keys, List.map_append]
    exact List.subset_append_left _ _

/-- Of two values stored under one key the second stays. -/
theorem set_set (entries : Keyed α) (key : String) (first second : α) :
    (entries.set key first).set key second = entries.set key second := by
  induction entries with
  | nil => exact if_pos rfl
  | cons entry rest ih =>
    by_cases hkey : entry.1 = key
    · rw [set, if_pos hkey, set, if_pos hkey, set, if_pos hkey]
    · rw [set, if_neg hkey, set, if_neg hkey, ih, set, if_neg hkey]

/-- What is stored in its place may as well be stored before something else. -/
theorem set_comm_of_mem {entries : Keyed α} {key other : String} (h : key ∈ entries.keys)
    (hne : key ≠ other) (first second : α) :
    (entries.set other first).set key second = (entries.set key second).set other first := by
  induction entries with
  | nil => cases h
  | cons entry rest ih =>
    by_cases hkey : entry.1 = key
    · have hother : entry.1 ≠ other := fun heq => hne (hkey.symm.trans heq)
      rw [set, if_neg hother, set, if_pos hkey, set, if_pos hkey, set, if_neg (hkey ▸ hother)]
    · rw [keys, List.map_cons, List.mem_cons] at h
      have hrest := h.resolve_left (Ne.symm hkey)
      by_cases hother : entry.1 = other
      · rw [set, if_pos hother, set, if_neg hkey, set, if_neg hkey, set, if_pos hother]
      · rw [set, if_neg hother, set, if_neg hkey, ih hrest, set, if_neg hkey, set, if_neg hother]

/-- So it may be stored before more entries of other keys. -/
theorem merge_set_comm {more : Keyed α} {key : String} (hmore : key ∉ more.keys) {entries : Keyed α}
    (h : key ∈ entries.keys) (value : α) :
    (entries.merge more).set key value = (entries.set key value).merge more := by
  induction more generalizing entries with
  | nil => rfl
  | cons first rest ih =>
    rw [keys, List.map_cons, List.mem_cons, not_or] at hmore
    have hstored : key ∈ (entries.set first.1 first.2).keys := keys_subset_set _ _ _ h
    rw [merge_cons, ih hmore.2 hstored, set_comm_of_mem h hmore.1, merge_cons]

/-- Storing a value among entries that are stored then is storing it after them. -/
theorem merge_set {more : Keyed α} (h : more.keys.Nodup) (entries : Keyed α) (key : String)
    (value : α) : entries.merge (more.set key value) = (entries.merge more).set key value := by
  induction more generalizing entries with
  | nil => rfl
  | cons first rest ih =>
    rw [keys, List.map_cons, List.nodup_cons] at h
    by_cases hkey : first.1 = key
    · have hstored : key ∈ (entries.set key first.2).keys := by
        have hfound := get?_set_self entries key first.2
        exact List.mem_map_of_mem (mem_of_get? hfound)
      calc entries.merge (set (first :: rest) key value)
          = ((entries.set key first.2).set key value).merge rest := by
            rw [set, if_pos hkey, merge_cons, set_set, hkey]
        _ = ((entries.set key first.2).merge rest).set key value :=
            (merge_set_comm (hkey ▸ h.1) hstored value).symm
        _ = (entries.merge (first :: rest)).set key value := by
            rw [merge_cons, hkey]
    · rw [set, if_neg hkey, merge_cons, ih h.2, merge_cons]

/-- Storing one list of entries after another is storing both at once, put together. -/
theorem merge_merge {more : Keyed α} (h : more.keys.Nodup) (entries last : Keyed α) :
    entries.merge (more.merge last) = (entries.merge more).merge last := by
  induction last generalizing more with
  | nil => rfl
  | cons first rest ih =>
    rw [merge_cons, ih (nodup_set h first.1 first.2), merge_set h, merge_cons]

/-- The keys from before stay in their order, and the new ones come behind them in theirs. -/
theorem keys_merge {more : Keyed α} (h : more.keys.Nodup) (entries : Keyed α) :
    (entries.merge more).keys = entries.keys ++ more.keys.filter (· ∉ entries.keys) := by
  induction more generalizing entries with
  | nil => exact (List.append_nil _).symm
  | cons first rest ih =>
    have hkeys : keys (first :: rest) = first.1 :: keys rest := rfl
    rw [hkeys, List.nodup_cons] at h
    rw [merge_cons, ih h.2, hkeys, List.filter_cons]
    by_cases hmem : first.1 ∈ entries.keys
    · rw [keys_set_of_mem hmem, if_neg (by simpa using hmem)]
    · have hstored : (entries.set first.1 first.2).keys = entries.keys ++ [first.1] := by
        rw [set_of_notMem hmem, keys, List.map_append]
        rfl
      -- None of the other keys is the one that was stored first.
      have hothers : (keys rest).filter (· ∉ entries.keys ++ [first.1]) =
          (keys rest).filter (· ∉ entries.keys) := by
        refine List.filter_congr fun key hkey => ?_
        have hne : key ≠ first.1 := fun heq => h.1 (heq ▸ hkey)
        simp [hne]
      rw [hstored, hothers, if_pos (by simpa using hmem), List.append_assoc]
      rfl

/-! ### Changing values -/

variable {entries : Keyed α} {key : String} {change : α → α}

/-- Nothing changes if the value that is found does not. -/
theorem modify_eq_self (h : ∀ value, entries.get? key = some value → change value = value) :
    entries.modify key change = entries := by
  induction entries with
  | nil => rfl
  | cons entry rest ih =>
    by_cases hkey : entry.1 = key
    · rw [modify, if_pos hkey, h entry.2 (if_pos hkey)]
    · rw [modify, if_neg hkey, ih fun value hvalue => h value ((if_neg hkey).trans hvalue)]

/-- Storing under a key that is present changes the value that is found. -/
theorem set_eq_modify {value : α} (h : entries.get? key = some value) :
    entries.set key (change value) = entries.modify key change := by
  induction entries with
  | nil => cases h
  | cons entry rest ih =>
    by_cases hkey : entry.1 = key
    · rw [get?, if_pos hkey, Option.some.injEq] at h
      rw [set, if_pos hkey, modify, if_pos hkey, h]
    · rw [get?, if_neg hkey] at h
      rw [set, if_neg hkey, modify, if_neg hkey, ih h]

/-- Two changes of one value are one change. -/
theorem modify_modify (again : α → α) :
    (entries.modify key change).modify key again =
      entries.modify key fun value => again (change value) := by
  induction entries with
  | nil => rfl
  | cons entry rest ih =>
    by_cases hkey : entry.1 = key
    · rw [modify, if_pos hkey, modify, if_pos hkey, modify, if_pos hkey]
    · rw [modify, if_neg hkey, modify, if_neg hkey, ih, modify, if_neg hkey]

/-- A value that is there after a change was there before, or comes of one by the change. -/
theorem mem_modify {entry : String × α} (h : entry ∈ entries.modify key change) :
    entry ∈ entries ∨ ∃ old, (entry.1, old) ∈ entries ∧ entry.2 = change old := by
  induction entries with
  | nil => cases h
  | cons first rest ih =>
    by_cases hkey : first.1 = key
    · rw [modify, if_pos hkey] at h
      rcases List.mem_cons.mp h with rfl | hrest
      · exact Or.inr ⟨first.2, List.mem_cons_self, rfl⟩
      · exact Or.inl (List.mem_cons_of_mem _ hrest)
    · rw [modify, if_neg hkey] at h
      rcases List.mem_cons.mp h with rfl | hrest
      · exact Or.inl List.mem_cons_self
      · rcases ih hrest with hsame | ⟨old, hold, hentry⟩
        · exact Or.inl (List.mem_cons_of_mem _ hsame)
        · exact Or.inr ⟨old, List.mem_cons_of_mem _ hold, hentry⟩

/-- What a change leaves as it is can be read off the entries afterwards. -/
theorem map_modify {β : Type} {view : String × α → β}
    (h : ∀ entry ∈ entries, view (entry.1, change entry.2) = view entry) :
    (entries.modify key change).map view = entries.map view := by
  induction entries with
  | nil => rfl
  | cons first rest ih =>
    by_cases hkey : first.1 = key
    · rw [modify, if_pos hkey, List.map_cons, List.map_cons, h first List.mem_cons_self]
    · rw [modify, if_neg hkey, List.map_cons, List.map_cons,
        ih fun entry hentry => h entry (List.mem_cons_of_mem first hentry)]

/-- A key that is not among the first entries is looked for among the others. -/
theorem modify_append {first : Keyed α} (h : key ∉ first.keys) :
    modify (first ++ entries) key change = first ++ entries.modify key change := by
  induction first with
  | nil => rfl
  | cons entry first ih =>
    rw [keys, List.map_cons, List.mem_cons, not_or] at h
    rw [List.cons_append, modify, if_neg (Ne.symm h.1), ih h.2, List.cons_append]

/-- One key after the other, each value changes once. -/
theorem foldl_modify {changes : String → α → α} (h : entries.keys.Nodup) :
    entries.keys.foldl (fun done key => done.modify key (changes key)) entries =
      entries.map fun entry => (entry.1, changes entry.1 entry.2) := by
  -- The entries changed so far stand in front, and their keys do not come again.
  have hfront : ∀ (rest first : Keyed α), (keys (first ++ rest)).Nodup →
      rest.keys.foldl (fun done key => modify done key (changes key)) (first ++ rest) =
        first ++ rest.map fun entry => (entry.1, changes entry.1 entry.2) := by
    intro rest
    induction rest with
    | nil => simp [keys]
    | cons entry rest ih =>
      intro first hkeys
      have hnew : entry.1 ∉ keys first := by
        intro hmem
        rw [keys, List.map_append, List.map_cons] at hkeys
        exact (List.nodup_append.mp hkeys).2.2 _ hmem _ List.mem_cons_self rfl
      have hsplit : ∀ value : α, first ++ (entry.1, value) :: rest =
          first ++ [(entry.1, value)] ++ rest := by simp
      have hchanged : (keys (first ++ [(entry.1, changes entry.1 entry.2)] ++ rest)).Nodup := by
        rw [← hsplit]
        simpa [keys] using hkeys
      rw [keys, List.map_cons, List.foldl_cons, modify_append hnew, modify, if_pos rfl, hsplit,
        ← keys, ih _ hchanged, List.map_cons, List.append_assoc, List.singleton_append]
  exact hfront entries [] h

end Patchbay.Keyed
