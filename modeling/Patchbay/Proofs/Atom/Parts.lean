import Mathlib.Data.List.Forall2
import Patchbay.Atom.Basic
import Patchbay.Proofs.Keyed
import Patchbay.Proofs.Number.Doubles

/-!
# The atoms inside an atom

Vectors and dicos nest, so what holds of every atom is shown by an induction that may rest on all the
atoms a vector or a dico holds. A condition can be asked of an atom with everything inside it. Lists are
equal if their atoms are, and dicos with the same distinct keys if the lists under each key are.
-/

namespace Patchbay

namespace Atom

/-- An item is smaller than its vector. -/
theorem sizeOf_lt_vector {items : List Atom} {item : Atom} (hitem : item ∈ items) :
    sizeOf item < sizeOf (Atom.vector items) := by
  have hsize := List.sizeOf_lt_of_mem hitem
  simp only [Atom.vector.sizeOf_spec]
  omega

/-- An atom under a key is smaller than its dico. -/
theorem sizeOf_lt_dico {entries : List (String × List Atom)} (identity : Nat)
    {entry : String × List Atom} (hentry : entry ∈ entries) {item : Atom} (hitem : item ∈ entry.2) :
    sizeOf item < sizeOf (Atom.dico entries identity) := by
  have hsize := List.sizeOf_lt_of_mem hitem
  have hentries := List.sizeOf_lt_of_mem hentry
  have hpair : sizeOf entry = 1 + sizeOf entry.1 + sizeOf entry.2 := rfl
  simp only [Atom.dico.sizeOf_spec]
  omega

/-- Induction on atoms; for a vector and for a dico on all atoms in it. -/
theorem induction {motive : Atom → Prop} (undefined : motive .undefined)
    (bool : ∀ value, motive (.bool value)) (long : ∀ value, motive (.long value))
    (double : ∀ value minus, motive (.double value minus)) (symbol : ∀ text, motive (.symbol text))
    (vector : ∀ items : List Atom, (∀ item ∈ items, motive item) → motive (.vector items))
    (dico : ∀ (entries : List (String × List Atom)) (identity : Nat),
      (∀ entry ∈ entries, ∀ item ∈ entry.2, motive item) → motive (.dico entries identity)) :
    ∀ atom, motive atom
  | .undefined => undefined
  | .bool value => bool value
  | .long value => long value
  | .double value minus => double value minus
  | .symbol text => symbol text
  | .vector items =>
    vector items fun item hitem =>
      have _ := sizeOf_lt_vector hitem
      induction undefined bool long double symbol vector dico item
  | .dico entries identity =>
    dico entries identity fun entry hentry item hitem =>
      have _ := sizeOf_lt_dico identity hentry hitem
      induction undefined bool long double symbol vector dico item
termination_by atom => sizeOf atom
decreasing_by all_goals assumption

mutual

/-- Decide whether an atom and all atoms inside it satisfy a condition. -/
def every (p : Atom → Bool) : Atom → Bool
  | .vector items => p (.vector items) && everyItem p items
  | .dico entries identity => p (.dico entries identity) && everyEntry p entries
  | atom => p atom

/-- Decide whether all atoms of a list do, with all atoms inside them. -/
def everyItem (p : Atom → Bool) : List Atom → Bool
  | [] => true
  | item :: rest => every p item && everyItem p rest

/-- Decide whether all atoms under the keys of a dico do, with all atoms inside them. -/
def everyEntry (p : Atom → Bool) : List (String × List Atom) → Bool
  | [] => true
  | (_, items) :: rest => everyItem p items && everyEntry p rest

end

variable {p : Atom → Bool}

/-- All atoms of a list satisfy a condition if each does. -/
theorem everyItem_iff {items : List Atom} :
    everyItem p items = true ↔ ∀ item ∈ items, every p item = true := by
  induction items with
  | nil => simp [everyItem]
  | cons item rest ih => simp [everyItem, ih]

/-- All atoms of a dico satisfy a condition if each does. -/
theorem everyEntry_iff {entries : List (String × List Atom)} :
    everyEntry p entries = true ↔ ∀ entry ∈ entries, ∀ item ∈ entry.2, every p item = true := by
  induction entries with
  | nil => simp [everyEntry]
  | cons entry rest ih => simp [everyEntry, everyItem_iff, ih]

/-- A condition on a vector with all that is inside it. -/
theorem every_vector {items : List Atom} :
    every p (.vector items) = true ↔
      p (.vector items) = true ∧ ∀ item ∈ items, every p item = true := by
  rw [every, Bool.and_eq_true, everyItem_iff]

/-- A condition on a dico with all that is inside it. -/
theorem every_dico {entries : List (String × List Atom)} {identity : Nat} :
    every p (.dico entries identity) = true ↔ p (.dico entries identity) = true ∧
      ∀ entry ∈ entries, ∀ item ∈ entry.2, every p item = true := by
  rw [every, Bool.and_eq_true, everyEntry_iff]

/-- What holds of an atom with all that is inside it holds of the atom. -/
theorem of_every {atom : Atom} (h : atom.every p = true) : p atom = true := by
  cases atom with
  | vector items => exact (every_vector.mp h).1
  | dico entries identity => exact (every_dico.mp h).1
  | undefined | bool | long | double | symbol => exact h

/-- No atom is a NaN by its kind: a truth value or an integer stands for a double that is none, and what
is no number stands for zero. -/
theorem isNaN_toDouble (atom : Atom) (h : ∀ x minus, atom = .double x minus → x.isNaN = false) :
    atom.toDouble.isNaN = false := by
  have hzero : (0.0 : Float).isNaN = false := by decide +kernel
  have hone : (1.0 : Float).isNaN = false := by decide +kernel
  cases atom with
  | bool value => cases value <;> assumption
  | long n => exact Long.isNaN_toDouble n
  | double x minus => exact h x minus rfl
  | undefined | symbol | vector | dico => exact hzero

/-! ### Equality part by part -/

/-- Lists are equal if their atoms are. -/
theorem sameList_of_forall₂ {found original : List Atom}
    (h : List.Forall₂ (fun a b => same a b = true) found original) :
    sameList found original = true := by
  induction h with
  | nil => rfl
  | cons hatom _ ih => rw [sameList, hatom, ih, Bool.and_self]

/-- Entries are found in a dico that has entries with the same keys and equal lists, and no two entries
under one key. -/
theorem sameEntries_of_forall₂ {found entries other : List (String × List Atom)}
    (hkeys : (Keyed.keys other).Nodup) (hsubset : entries ⊆ other)
    (h : List.Forall₂ (fun a b => a.1 = b.1 ∧ sameList a.2 b.2 = true) found entries) :
    sameEntries found other = true := by
  induction h with
  | nil => rfl
  | @cons first entry found entries hentry _ ih =>
    have hget := Keyed.get?_of_mem hkeys (hsubset List.mem_cons_self)
    have hrest := ih fun _ hmem => hsubset (List.mem_cons_of_mem entry hmem)
    rw [← hentry.1] at hget
    rw [sameEntries, hget, hrest, Bool.and_true]
    exact hentry.2

end Atom

/-- Dicos with the same distinct keys in the same order are equal if the lists under each key are. -/
theorem Dico.same_of_forall₂ {found original : Dico} (hkeys : (Keyed.keys original).Nodup)
    (h : List.Forall₂ (fun a b => a.1 = b.1 ∧ Atom.sameList a.2 b.2 = true) found original) :
    Dico.same found original = true := by
  rw [Dico.same, h.length_eq, Atom.sameEntries_of_forall₂ hkeys (List.Subset.refl _) h,
    beq_self_eq_true]
  rfl

end Patchbay
