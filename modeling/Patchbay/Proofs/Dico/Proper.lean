import Patchbay.Proofs.Atom.Equality
import Patchbay.Proofs.Number.ReadBack

/-!
# Proper dicos as text

Every double is read back from its numeral, so a text keeps every dico in which there is no NaN and the
keys are distinct at each level. What comes back is such a dico again.
-/

namespace Patchbay

open Notation (keeps reread rereadItems rereadEntries)

namespace Atom

/-- A text keeps what is proper. -/
theorem every_keeps {atom : Atom} (h : atom.every isProper = true) : atom.every keeps = true := by
  induction atom using Atom.induction with
  | undefined | bool | long | symbol => rfl
  | double x minus =>
    have hnumber : isProper (.double x minus) = true := h
    exact Bool.and_eq_true_iff.mpr ⟨hnumber, decide_eq_true (Numeral.readsBack x)⟩
  | vector items ih =>
    rw [every_vector] at h ⊢
    exact ⟨rfl, fun item hitem => ih item hitem (h.2 item hitem)⟩
  | dico entries identity ih =>
    rw [every_dico] at h ⊢
    exact ⟨h.1, fun entry hentry item hitem =>
      ih entry hentry item hitem (h.2 entry hentry item hitem)⟩

/-- What is read of something proper is proper. -/
theorem every_isProper_reread {atom : Atom} (h : atom.every isProper = true) :
    (reread atom).every isProper = true := by
  induction atom using Atom.induction with
  | undefined | bool | long | symbol => rfl
  | double x minus =>
    obtain ⟨found, hfound, hnumber, rfl⟩ := Notation.number?_atomDouble (Numeral.readsBack x)
    rw [reread, hfound, Option.getD_some]
    cases found with
    | bool | long => rfl
    | double y sign => exact h
    | undefined | symbol | vector | dico => cases hnumber
  | vector items ih =>
    rw [every_vector] at h
    rw [reread, every_vector, Notation.rereadItems_eq_map, List.forall_mem_map]
    exact ⟨rfl, fun item hitem => ih item hitem (h.2 item hitem)⟩
  | dico entries identity ih =>
    rw [every_dico, isProper, decide_eq_true_eq] at h
    rw [reread, every_dico, isProper, decide_eq_true_eq, Notation.keys_rereadEntries,
      Notation.rereadEntries_eq_map, List.forall_mem_map]
    refine ⟨h.1, fun entry hentry => ?_⟩
    rw [Notation.rereadItems_eq_map, List.forall_mem_map]
    exact fun item hitem => ih entry hentry item hitem (h.2 entry hentry item hitem)

end Atom

namespace Dico

/-- A proper dico equals itself. -/
theorem same_self {dico : Dico} (h : (Atom.dico dico).every Atom.isProper = true) :
    Dico.same dico dico = true := Atom.same_self h

end Dico

end Patchbay
