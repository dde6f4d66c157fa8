import Patchbay.Proofs.Dico.Blocks

/-!
# Dicos equal after reading

What is read from the text of a dico equals the dico, and looks like it: the keys of every dico stand in
their order, and every atom but a double is of its variant. A double may be found as an integer of the
same value.
-/

namespace Patchbay.Notation

mutual

/-- Decide whether a found atom is of the variant of the original and, inside it, holds atoms of the
variants of the original under the same keys in the same order. A double may be found as any number. -/
def alike : Atom → Atom → Bool
  | .undefined, .undefined => true
  | .bool _, .bool _ => true
  | .long _, .long _ => true
  | .symbol _, .symbol _ => true
  | .vector found, .vector original => alikeItems found original
  | .dico found _, .dico original _ => alikeEntries found original
  | found, .double _ _ => found.isNumber
  | _, _ => false

/-- Decide whether the atoms of a list are, in their order. -/
def alikeItems : List Atom → List Atom → Bool
  | [], [] => true
  | found :: rest, original :: others => alike found original && alikeItems rest others
  | _, _ => false

/-- Decide whether the entries of a dico are, in their order and with their keys. -/
def alikeEntries : List (String × List Atom) → List (String × List Atom) → Bool
  | [], [] => true
  | (key, found) :: rest, (name, original) :: others =>
    key == name && alikeItems found original && alikeEntries rest others
  | _, _ => false

end

/-- A list equals what is read of it if its atoms do. -/
theorem sameList_rereadItems {items : List Atom}
    (h : ∀ item ∈ items, Atom.same (reread item) item = true) :
    Atom.sameList (rereadItems items) items = true := by
  rw [rereadItems_eq_map]
  refine Atom.sameList_of_forall₂ ?_
  rwa [List.forall₂_map_left_iff, List.forall₂_same]

/-- A dico equals what is read of it if the atoms in it do. -/
theorem same_rereadEntries {entries : Dico} (hkeys : (Keyed.keys entries).Nodup)
    (h : ∀ entry ∈ entries, ∀ item ∈ entry.2, Atom.same (reread item) item = true) :
    Dico.same (rereadEntries entries) entries = true := by
  rw [rereadEntries_eq_map]
  refine Dico.same_of_forall₂ hkeys ?_
  rw [List.forall₂_map_left_iff, List.forall₂_same]
  exact fun entry hentry => ⟨rfl, sameList_rereadItems (h entry hentry)⟩

/-- An atom equals what is read of it. -/
theorem same_reread {atom : Atom} (h : atom.every keeps = true) :
    Atom.same (reread atom) atom = true := by
  induction atom using Atom.induction with
  | undefined => rfl
  | bool value => simp [reread, Atom.same]
  | long n => simp [reread, Atom.same]
  | double x minus =>
    have hkeeps : keeps (.double x minus) = true := h
    rw [keeps, Bool.and_eq_true, Bool.not_eq_true', decide_eq_true_eq] at hkeeps
    obtain ⟨hnumber, hback⟩ := hkeeps
    obtain ⟨found, hfound, hkind, hvalue⟩ := number?_atomDouble hback
    have hself : (x == x) = true := Double.beq_self hnumber
    rw [reread, hfound, Option.getD_some]
    cases found <;> simp_all [Atom.same, Atom.isNumber, Atom.toDouble]
  | symbol text => simp [reread, Atom.same]
  | vector items ih =>
    rw [Atom.every_vector] at h
    rw [reread, Atom.same]
    exact sameList_rereadItems fun item hitem => ih item hitem (h.2 item hitem)
  | dico entries identity ih =>
    rw [Atom.every_dico, keeps, decide_eq_true_eq] at h
    rw [reread, Atom.same]
    exact same_rereadEntries h.1 fun entry hentry item hitem =>
      ih entry hentry item hitem (h.2 entry hentry item hitem)

/-- Lists are alike if their atoms are. -/
theorem alikeItems_rereadItems {items : List Atom}
    (h : ∀ item ∈ items, alike (reread item) item = true) :
    alikeItems (rereadItems items) items = true := by
  induction items with
  | nil => rfl
  | cons item items ih =>
    rw [rereadItems, alikeItems, h item List.mem_cons_self,
      ih fun other hother => h other (List.mem_cons_of_mem item hother)]
    rfl

/-- Dicos are alike if the atoms in them are. -/
theorem alikeEntries_rereadEntries {entries : List (String × List Atom)}
    (h : ∀ entry ∈ entries, ∀ item ∈ entry.2, alike (reread item) item = true) :
    alikeEntries (rereadEntries entries) entries = true := by
  induction entries with
  | nil => rfl
  | cons entry entries ih =>
    rw [rereadEntries, alikeEntries, beq_self_eq_true,
      alikeItems_rereadItems (h entry List.mem_cons_self),
      ih fun other hother => h other (List.mem_cons_of_mem entry hother)]
    rfl

/-- An atom and what is read of it are alike. -/
theorem alike_reread {atom : Atom} (h : atom.every keeps = true) :
    alike (reread atom) atom = true := by
  induction atom using Atom.induction with
  | undefined | bool | long | symbol => rfl
  | double x minus =>
    have hkeeps : keeps (.double x minus) = true := h
    rw [keeps, Bool.and_eq_true, decide_eq_true_eq] at hkeeps
    obtain ⟨found, hfound, hkind, -⟩ := number?_atomDouble hkeeps.2
    rw [reread, hfound, Option.getD_some]
    cases found <;> exact hkind
  | vector items ih =>
    rw [Atom.every_vector] at h
    rw [reread, alike]
    exact alikeItems_rereadItems fun item hitem => ih item hitem (h.2 item hitem)
  | dico entries identity ih =>
    rw [Atom.every_dico] at h
    rw [reread, alike]
    exact alikeEntries_rereadEntries fun entry hentry item hitem =>
      ih entry hentry item hitem (h.2 entry hentry item hitem)

/-- A dico without NaN, whose keys are distinct at every level and whose doubles are read back from their
numerals, equals what is read from its text, with the same keys in the same order at every level and
every atom but a double in its own variant. -/
theorem read_text_same {dico : Dico} (h : (Atom.dico dico).every keeps = true) :
    Dico.same (read (text dico)) dico = true ∧ alikeEntries (read (text dico)) dico = true := by
  rw [read_text h]
  rw [Atom.every_dico, keeps, decide_eq_true_eq] at h
  exact ⟨same_rereadEntries h.1 fun entry hentry item hitem =>
      same_reread (h.2 entry hentry item hitem),
    alikeEntries_rereadEntries fun entry hentry item hitem =>
      alike_reread (h.2 entry hentry item hitem)⟩

/-- A dico with texts that look like marks, with empty and nested lists and dicos, with a block in a
block, and with doubles that are written like integers or have no digits. -/
def patchwork : Dico :=
  [("", []), ("\x7b \"a\\\n", [.symbol "], \x7d\t\r\n,", .undefined, .bool true]),
    ("nested", [.dico [("inner", [.dico [("x", [.long (-3)])] 0]), ("none", [.dico [] 0])] 0]),
    ("mixed", [.vector [.dico [("k", [.vector []])] 0, .vector [.symbol ""]]]),
    ("numbers", [.double 0.1, .double 1e16, .double (-0.0), .double (1.0 / 0.0)])]

/-- It equals what is read from its text, and looks like it. -/
theorem read_text_same_patchwork :
    (Atom.dico patchwork).every keeps = true ∧ Dico.same (read (text patchwork)) patchwork = true ∧
      alikeEntries (read (text patchwork)) patchwork = true :=
  have hkeeps : (Atom.dico patchwork).every keeps = true := by decide +kernel
  ⟨hkeeps, read_text_same hkeeps⟩

end Patchbay.Notation
