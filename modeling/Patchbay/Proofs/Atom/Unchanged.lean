import Patchbay.Attribute.Sheet
import Patchbay.Proofs.Dico.Alike

/-!
# Atoms that count as unchanged

An atom counts as unchanged if it equals the one that is there, or if both are a NaN, or copies of one
dico. So every atom counts as unchanged against itself, also one that does not equal itself.

What is read from a text may differ in variant from what was written, and equality of numbers of
different variants is not transitive. But a double is exact, so whatever counts as unchanged against the
number that is read equals the double that was written.
-/

namespace Patchbay

/-- A relation between the atoms of two lists may be weakened on the atoms of the first. -/
theorem forall₂_imp_of_mem {α β : Type} {R S : α → β → Prop} {first : List α} {second : List β}
    (h : ∀ a ∈ first, ∀ b, R a b → S a b) (hpairs : List.Forall₂ R first second) :
    List.Forall₂ S first second := by
  induction hpairs with
  | nil => exact .nil
  | @cons a b first second hpair _ ih =>
    exact .cons (h a List.mem_cons_self b hpair)
      (ih fun a ha => h a (List.mem_cons_of_mem _ ha))

namespace Atom

/-! ### Part by part -/

/-- Lists are equal exactly if their atoms are. -/
theorem sameList_iff {first second : List Atom} :
    sameList first second = true ↔ List.Forall₂ (fun a b => same a b = true) first second := by
  refine ⟨fun h => ?_, sameList_of_forall₂⟩
  induction first generalizing second with
  | nil =>
    cases second with
    | nil => exact .nil
    | cons b second => cases h
  | cons a first ih =>
    cases second with
    | nil => cases h
    | cons b second =>
      rw [sameList, Bool.and_eq_true] at h
      exact .cons h.1 (ih h.2)

/-- Entries are equal to those of a dico if each list is found there under its key. -/
theorem sameEntries_iff {entries other : List (String × List Atom)} :
    sameEntries entries other = true ↔ ∀ entry ∈ entries,
      ∃ found, Keyed.get? other entry.1 = some found ∧ sameList entry.2 found = true := by
  induction entries with
  | nil => simp [sameEntries]
  | cons entry entries ih =>
    rw [sameEntries, Bool.and_eq_true, ih, List.forall_mem_cons]
    refine and_congr_left fun _ => ?_
    cases Keyed.get? other entry.1 <;> simp

/-- Lists count as unchanged if their atoms do. -/
theorem unchangedList_iff {first second : List Atom} :
    unchangedList first second = true ↔
      List.Forall₂ (fun a b => unchanged a b = true) first second := by
  induction first generalizing second with
  | nil => cases second <;> simp [unchangedList]
  | cons a first ih => cases second <;> simp [unchangedList, ih]

/-- Entries do if their keys are the same, in order, and the lists under them count as unchanged. -/
theorem unchangedEntries_iff {first second : List (String × List Atom)} :
    unchangedEntries first second = true ↔
      List.Forall₂ (fun a b => a.1 = b.1 ∧ unchangedList a.2 b.2 = true) first second := by
  induction first generalizing second with
  | nil => cases second <;> simp [unchangedEntries]
  | cons a first ih => cases second <;> simp [unchangedEntries, ih]

/-! ### Equal atoms -/

/-- Every atom counts as unchanged against itself. -/
theorem unchanged_self (atom : Atom) : unchanged atom atom = true := by
  induction atom using Atom.induction with
  | undefined => rfl
  | bool value => exact beq_self_eq_true value
  | long n => exact beq_self_eq_true n
  | symbol text => exact beq_self_eq_true text
  | double x minus =>
    rw [unchanged, Bool.or_eq_true]
    cases hnan : x.isNaN with
    | false => exact Or.inl (Double.beq_self hnan)
    | true => exact Or.inr rfl
  | vector items ih =>
    rw [unchanged, unchangedList_iff, List.forall₂_same]
    exact ih
  | dico entries identity ih =>
    rw [unchanged, beq_self_eq_true, Bool.true_and, Bool.or_eq_true, unchangedEntries_iff,
      List.forall₂_same]
    refine Or.inl fun entry hentry => ⟨rfl, ?_⟩
    rw [unchangedList_iff, List.forall₂_same]
    exact ih entry hentry

/-- So does every list of atoms. -/
theorem unchangedList_self (items : List Atom) : unchangedList items items = true := by
  rw [unchangedList_iff, List.forall₂_same]
  exact fun item _ => unchanged_self item

/-- Equal atoms count as unchanged. -/
theorem unchanged_of_same {atom other : Atom} (h : same atom other = true) :
    unchanged atom other = true := by
  induction atom using Atom.induction generalizing other with
  | undefined | bool | long | symbol => exact h
  | double x minus =>
    cases other with
    | double y minus =>
      have hequal : (x == y) = true := h
      rw [unchanged, hequal, Bool.true_or]
    | _ => exact h
  | vector items ih =>
    cases other with
    | vector others =>
      rw [same, sameList_iff] at h
      rw [unchanged, unchangedList_iff]
      exact forall₂_imp_of_mem (fun item hitem _ => ih item hitem) h
    | _ => exact h
  | dico entries identity =>
    cases other with
    | dico => rw [unchanged, h, Bool.or_true]
    | _ => exact h

/-- So do equal lists. -/
theorem unchangedList_of_sameList {first second : List Atom} (h : sameList first second = true) :
    unchangedList first second = true := by
  rw [sameList_iff] at h
  rw [unchangedList_iff]
  exact h.imp fun _ _ => unchanged_of_same

/-! ### Atoms read from a text -/

/-- A number equals the numbers of its value only. -/
theorem toDouble_of_same {atom other : Atom} (hnumber : atom.isNumber = true)
    (hvalue : atom.toDouble.isNaN = false) (h : same atom other = true) :
    other.isNumber = true ∧ (atom.toDouble == other.toDouble) = true := by
  have hself : (atom.toDouble == atom.toDouble) = true := Double.beq_self hvalue
  cases atom with
  | bool value =>
    cases other with
    | bool other =>
      have hequal : value = other := beq_iff_eq.mp h
      exact ⟨rfl, hequal ▸ hself⟩
    | long | double => exact ⟨rfl, h⟩
    | _ => cases h
  | long n =>
    cases other with
    | long other =>
      have hequal : n = other := beq_iff_eq.mp h
      exact ⟨rfl, hequal ▸ hself⟩
    | bool | double => exact ⟨rfl, h⟩
    | _ => cases h
  | double x minus =>
    cases other with
    | bool | long | double => exact ⟨rfl, h⟩
    | _ => cases h
  | _ => cases hnumber

/-- A number other than a NaN counts as unchanged against what it equals only. -/
theorem same_of_unchanged {atom other : Atom} (hnumber : atom.isNumber = true)
    (hvalue : atom.toDouble.isNaN = false) (h : unchanged atom other = true) :
    same atom other = true := by
  cases atom with
  | bool | long => exact h
  | double x minus =>
    cases other with
    | double y minus =>
      have hx : x.isNaN = false := hvalue
      rwa [unchanged, hx, Bool.false_and, Bool.or_false] at h
    | _ => exact h
  | _ => cases hnumber

/-- What counts as unchanged against an atom that is read equals the atom that was written. -/
theorem same_of_unchanged_reread {atom other : Atom} (hatom : atom.every Notation.keeps = true)
    (h : unchanged (Notation.reread atom) other = true) : same atom other = true := by
  induction atom using Atom.induction generalizing other with
  | undefined | bool | long | symbol => exact h
  | double x minus =>
    have hkeeps : Notation.keeps (.double x minus) = true := hatom
    rw [Notation.keeps, Bool.and_eq_true, Bool.not_eq_true', decide_eq_true_eq] at hkeeps
    obtain ⟨found, hfound, hnumber, rfl⟩ := Notation.number?_atomDouble hkeeps.2
    rw [Notation.reread, hfound, Option.getD_some] at h
    obtain ⟨hother, hequal⟩ := toDouble_of_same hnumber hkeeps.1
      (same_of_unchanged hnumber hkeeps.1 h)
    cases other with
    | bool | long | double => exact hequal
    | _ => cases hother
  | vector items ih =>
    rw [every_vector] at hatom
    cases other with
    | vector others =>
      rw [Notation.reread, unchanged, unchangedList_iff, Notation.rereadItems_eq_map,
        List.forall₂_map_left_iff] at h
      rw [same, sameList_iff]
      exact forall₂_imp_of_mem (fun item hitem _ => ih item hitem (hatom.2 item hitem)) h
    | _ => cases h
  | dico entries identity ih =>
    rw [every_dico, Notation.keeps, decide_eq_true_eq] at hatom
    have hitems : ∀ entry ∈ entries, ∀ others,
        unchangedList (Notation.rereadItems entry.2) others = true → sameList entry.2 others = true := by
      intro entry hentry others hothers
      rw [unchangedList_iff, Notation.rereadItems_eq_map, List.forall₂_map_left_iff] at hothers
      rw [sameList_iff]
      exact forall₂_imp_of_mem
        (fun item hitem _ => ih entry hentry item hitem (hatom.2 entry hentry item hitem)) hothers
    cases other with
    | dico others =>
      rw [Notation.reread, unchanged, Bool.or_eq_true, Bool.and_eq_true] at h
      rw [same]
      rcases h with ⟨-, hentries⟩ | hequal
      · rw [unchangedEntries_iff, Notation.rereadEntries_eq_map, List.forall₂_map_left_iff] at hentries
        have hpairs := forall₂_imp_of_mem
          (S := fun a b => a.1 = b.1 ∧ sameList a.2 b.2 = true)
          (fun entry hentry found hfound => ⟨hfound.1, hitems entry hentry found.2 hfound.2⟩) hentries
        have hkeys : Keyed.keys others = Keyed.keys entries := by
          have hmap := List.forall₂_map_left_iff.mpr (List.forall₂_map_right_iff.mpr
            (hpairs.imp fun _ _ hpair => hpair.1))
          rw [List.forall₂_eq_eq_eq] at hmap
          exact hmap.symm
        exact Dico.same_of_forall₂ (hkeys ▸ hatom.1) hpairs
      · rw [same, Bool.and_eq_true] at hequal
        rw [Notation.rereadEntries_eq_map, List.length_map, sameEntries_iff] at hequal
        rw [Bool.and_eq_true, sameEntries_iff]
        refine ⟨hequal.1, fun entry hentry => ?_⟩
        obtain ⟨found, hget, hfound⟩ := hequal.2 _ (List.mem_map_of_mem hentry)
        exact ⟨found, hget, hitems entry hentry found (unchangedList_of_sameList hfound)⟩
    | _ => cases h

/-- The same of lists. -/
theorem sameList_of_unchangedList_reread {items others : List Atom}
    (hitems : ∀ item ∈ items, item.every Notation.keeps = true)
    (h : unchangedList (items.map Notation.reread) others = true) : sameList items others = true := by
  rw [unchangedList_iff, List.forall₂_map_left_iff] at h
  rw [sameList_iff]
  exact forall₂_imp_of_mem (fun item hitem _ => same_of_unchanged_reread (hitems item hitem)) h

end Atom

end Patchbay
