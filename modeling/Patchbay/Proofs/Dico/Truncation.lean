import Patchbay.Proofs.Dico.Proper

/-!
# Texts that are cut off

If the text of a dico ends early, between two of its lines, then what is read are the entries up to there.
A block that is left open is kept under its key with the entries up to there, and so are the blocks
around it. All entries in front of it are complete, and behind it there are none.
-/

namespace Patchbay.Notation

open Text

/-- How many lines the entries of a dico take. -/
def height (entries : List (String × List Atom)) : Nat := (lines 0 entries).length

/-- The entries on the first lines of those of a dico. A block that goes on behind these lines has the
entries on those of its lines that are among them. -/
def cut : Nat → List (String × List Atom) → List (String × List Atom)
  | 0, _ => []
  | _ + 1, [] => []
  | count + 1, (key, atoms) :: rest =>
    match atoms with
    | [.dico (entry :: entries) _] =>
      let inside := height (entry :: entries)
      if count ≤ inside then [(key, [.dico (cut count (entry :: entries))])]
      else (key, atoms) :: cut (count - inside - 1) rest
    | _ => (key, atoms) :: cut count rest
termination_by count => count

/-- The found entries are the first ones of a dico in their order, each under its key and with an equal
list, but for the last one, which may be a dico truncated in the same way. -/
inductive Truncated : List (String × List Atom) → List (String × List Atom) → Prop where
  | nil (entries : List (String × List Atom)) : Truncated [] entries
  | entry (key : String) {items atoms : List Atom} {found rest : List (String × List Atom)}
    (hitems : Atom.sameList items atoms = true) (hrest : Truncated found rest) :
    Truncated ((key, items) :: found) ((key, atoms) :: rest)
  | last (key : String) (place identity : Nat) {found entries : List (String × List Atom)}
    (rest : List (String × List Atom)) (h : Truncated found entries) :
    Truncated [(key, [.dico found place])] ((key, [.dico entries identity]) :: rest)

/-- The first lines of a text. -/
def firstLines (count : Nat) (text : List Char) : List Char :=
  ((Text.lines text).take count).flatMap (· ++ ['\n'])

/-! ### Entries and their lines -/

/-- The entries take as many lines at any level of nesting. -/
theorem length_lines (depth : Nat) (entries : List (String × List Atom)) :
    (lines depth entries).length = height entries := by
  suffices h : ∀ other, (lines depth entries).length = (lines other entries).length from h 0
  induction depth, entries using lines.induct with
  | case1 depth => simp [lines]
  | case2 depth key atoms rest ihBlock ihRest =>
    intro other
    rcases lines_cons depth key atoms rest with ⟨entry, entries, identity, rfl, hlines⟩ | ⟨hsingle, hlines⟩
    · rcases lines_cons other key [.dico (entry :: entries) identity] rest with
        ⟨_, _, _, hatoms, hother⟩ | ⟨hsingle, -⟩
      · cases hatoms
        simp [hlines, hother, ihBlock (other + 1), ihRest other]
      · exact absurd rfl (hsingle entry entries identity)
    · rcases lines_cons other key atoms rest with ⟨_, _, _, hatoms, -⟩ | ⟨-, hother⟩
      · exact absurd hatoms (hsingle _ _ _)
      · simp [hlines, hother, ihRest other]

variable {key : String} {atoms : List Atom} {rest : List (String × List Atom)}

/-- An entry on one line adds this line. -/
theorem height_single (hsingle : ∀ entry entries identity, atoms ≠ [.dico (entry :: entries) identity]) :
    height ((key, atoms) :: rest) = height rest + 1 := by
  rcases lines_cons 0 key atoms rest with ⟨_, _, _, hatoms, -⟩ | ⟨-, hlines⟩
  · exact absurd hatoms (hsingle _ _ _)
  · rw [height, hlines, List.length_cons, length_lines]

/-- A block adds its lines and the two around them. -/
theorem height_block (entry : String × List Atom) (entries : List (String × List Atom)) (identity : Nat) :
    height ((key, [.dico (entry :: entries) identity]) :: rest) =
      height (entry :: entries) + height rest + 2 := by
  rcases lines_cons 0 key [.dico (entry :: entries) identity] rest with
    ⟨_, _, _, hatoms, hlines⟩ | ⟨hsingle, -⟩
  · cases hatoms
    rw [height, hlines, List.length_append, List.length_cons, List.length_cons, length_lines, length_lines]
    omega
  · exact absurd rfl (hsingle entry entries identity)

/-- An entry on one line is among the first ones. -/
theorem cut_single (hsingle : ∀ entry entries identity, atoms ≠ [.dico (entry :: entries) identity])
    (count : Nat) : cut (count + 1) ((key, atoms) :: rest) = (key, atoms) :: cut count rest := by
  rw [cut]
  exact hsingle

variable {entry : String × List Atom} {entries : List (String × List Atom)} {identity count : Nat}

/-- A block of which the end is cut off is the last one. -/
theorem cut_open (h : count ≤ height (entry :: entries)) :
    cut (count + 1) ((key, [.dico (entry :: entries) identity]) :: rest) =
      [(key, [.dico (cut count (entry :: entries))])] := by
  rw [cut]
  exact if_pos h

/-- A block of which the end is among the lines is complete. -/
theorem cut_closed (h : ¬ count ≤ height (entry :: entries)) :
    cut (count + 1) ((key, [.dico (entry :: entries) identity]) :: rest) =
      (key, [.dico (entry :: entries) identity]) :: cut (count - height (entry :: entries) - 1) rest := by
  rw [cut]
  exact if_neg h

/-- The first entries keep their keys. -/
theorem prefix_keys_cut (count : Nat) (entries : List (String × List Atom)) :
    Keyed.keys (cut count entries) <+: Keyed.keys entries := by
  induction count, entries using cut.induct with
  | case1 => simp [cut, Keyed.keys]
  | case2 => simp [cut]
  | case3 count key rest entry entries identity inside hopen _ =>
    rw [cut_open hopen]
    exact List.prefix_append [key] _
  | case4 count key rest entry entries identity inside hclosed ih =>
    rw [cut_closed hclosed]
    exact (List.prefix_cons_inj key).mpr ih
  | case5 count key atoms rest hsingle ih =>
    rw [cut_single hsingle]
    exact (List.prefix_cons_inj key).mpr ih

/-- With more lines than they take the entries are complete. -/
theorem cut_of_height_lt {count : Nat} {entries : List (String × List Atom)}
    (h : height entries < count) : cut count entries = entries := by
  induction count, entries using cut.induct with
  | case1 entries => exact absurd h (Nat.not_lt_zero _)
  | case2 => rw [cut]
  | case3 count key rest entry entries identity inside hopen _ =>
    rw [height_block] at h
    omega
  | case4 count key rest entry entries identity inside hclosed ih =>
    rw [height_block] at h
    rw [cut_closed hclosed, ih (by omega)]
  | case5 count key atoms rest hsingle ih =>
    rw [height_single hsingle] at h
    rw [cut_single hsingle, ih (by omega)]

/-! ### What is read of the first lines -/

/-- Lines that end inside of blocks leave the entries on them in these blocks, which are closed at the
end. -/
theorem finish_take {root : Dico} {entries : List (String × List Atom)} (depth count : Nat)
    (hitems : ∀ entry ∈ entries, ∀ item ∈ entry.2, item.every keeps = true) (filled : Dico)
    (hkeys : (Keyed.keys (filled ++ entries)).Nodup) {around : List (Dico × String)} :
    (((lines depth entries).take count).foldl Progress.line ⟨root, some ⟨filled, around⟩⟩).finish =
      Progress.finish ⟨root, some ⟨filled ++ rereadEntries (cut count entries), around⟩⟩ := by
  induction depth, entries using lines.induct generalizing count filled around with
  | case1 depth =>
    cases count <;> simp [lines, cut, rereadEntries]
  | case2 depth key atoms rest ihBlock ihRest =>
    obtain ⟨hatoms, hrest⟩ := List.forall_mem_cons.mp hitems
    obtain ⟨hset, hstored⟩ := set_new hkeys (rereadItems atoms)
    cases count with
    | zero => simp [cut, rereadEntries]
    | succ count =>
    have hfinal : ∀ later, filled.set key (rereadItems atoms) ++ rereadEntries later =
        filled ++ rereadEntries ((key, atoms) :: later) := by
      intro later
      rw [hset, rereadEntries, List.append_assoc, List.singleton_append]
    rcases lines_cons depth key atoms rest with ⟨entry, entries, identity, rfl, hlines⟩ | ⟨hsingle, hlines⟩
    · have hinner := hatoms _ List.mem_cons_self
      rw [Atom.every_dico, keeps, decide_eq_true_eq] at hinner
      rw [hlines, List.cons_append, List.take_succ_cons, List.foldl_cons, line_opens]
      by_cases hopen : count ≤ height (entry :: entries)
      · rw [cut_open hopen, List.take_append_of_le_length (length_lines _ _ ▸ hopen),
          ihBlock _ hinner.2 [] hinner.1, List.nil_append]
        show Progress.finish ⟨root, some ⟨filled.set key
          [.dico (rereadEntries (cut count (entry :: entries)))], around⟩⟩ = _
        rw [(set_new hkeys _).1]
        rfl
      · obtain ⟨after, rfl⟩ : ∃ after, count = height (entry :: entries) + (after + 1) :=
          ⟨count - height (entry :: entries) - 1, by omega⟩
        have hread : rereadItems [.dico (entry :: entries) identity] =
            [.dico (rereadEntries (entry :: entries))] := rfl
        rw [cut_closed hopen, ← hfinal, ← length_lines (depth + 1), List.take_length_add_append,
          List.take_succ_cons, List.foldl_append, foldl_lines (depth + 1) hinner.2 [] hinner.1,
          List.nil_append, List.foldl_cons, line_closes, ← hread, ihRest _ hrest _ hstored,
          Nat.add_sub_cancel_left, Nat.add_sub_cancel]
    · have hreadable : ∀ atom ∈ atoms, Readable atom := fun atom hatom =>
        readable (hatoms atom hatom)
      rw [hlines, cut_single hsingle, List.take_succ_cons, List.foldl_cons, line_field hreadable,
        ihRest _ hrest _ hstored, hfinal]

variable {dico : Dico}

/-- The first lines of a dico's text are its first lines. -/
theorem lines_firstLines (count : Nat) (dico : Dico) :
    Text.lines (firstLines count (text dico)) = (block dico).take count := by
  rw [firstLines, lines_text]
  exact lines_flatMap fun line hline => newline_notMem_block dico line (List.mem_of_mem_take hline)

/-- What is read of the first lines are the entries on them. -/
theorem read_firstLines_eq (h : (Atom.dico dico).every keeps = true) (count : Nat) :
    read (firstLines count (text dico)) = rereadEntries (cut (count - 1) dico) := by
  cases count with
  | zero => rw [cut]; rfl
  | succ count =>
  by_cases hopen : count ≤ height dico
  · rw [Atom.every_dico, keeps, decide_eq_true_eq] at h
    obtain ⟨hkeys, hitems⟩ := h
    have hlines : (block dico).take (count + 1) = ['\x7b'] :: (lines 1 dico).take count := by
      rw [block, List.append_assoc, List.singleton_append, List.take_succ_cons,
        List.take_append_of_le_length (length_lines 1 dico ▸ hopen)]
    have hdistinct : (Keyed.keys (rereadEntries (cut count dico))).Nodup := by
      rw [keys_rereadEntries]
      exact hkeys.sublist (prefix_keys_cut count dico).sublist
    rw [read, readInto, lines_firstLines, hlines, List.foldl_cons, line_brace,
      finish_take 1 count hitems [] hkeys, List.nil_append]
    exact Keyed.ofList_of_nodup hdistinct
  · have hall : firstLines (count + 1) (text dico) = text dico := by
      have hlength : (block dico).length ≤ count + 1 := by
        simp only [block, List.length_append, length_lines, List.length_singleton]
        omega
      rw [firstLines, lines_text, List.take_of_length_le hlength]
      rfl
    rw [hall, read_text h, Nat.add_sub_cancel, cut_of_height_lt (Nat.lt_of_not_le hopen)]

/-- A text keeps the atoms on the first lines if it keeps all. -/
theorem keeps_cut (count : Nat) {entries : List (String × List Atom)}
    (hitems : ∀ entry ∈ entries, ∀ item ∈ entry.2, item.every keeps = true) :
    ∀ entry ∈ cut count entries, ∀ item ∈ entry.2, item.every keeps = true := by
  induction count, entries using cut.induct with
  | case1 | case2 =>
    rw [cut]
    exact List.forall_mem_nil _
  | case3 count key rest entry entries identity inside hopen ih =>
    have hinner := hitems _ List.mem_cons_self _ List.mem_cons_self
    rw [Atom.every_dico, keeps, decide_eq_true_eq] at hinner
    have hkeys := hinner.1.sublist (prefix_keys_cut count (entry :: entries)).sublist
    rw [cut_open hopen, List.forall_mem_singleton, List.forall_mem_singleton, Atom.every_dico]
    exact ⟨decide_eq_true hkeys, ih hinner.2⟩
  | case4 count key rest entry entries identity inside hclosed ih =>
    obtain ⟨hatoms, hrest⟩ := List.forall_mem_cons.mp hitems
    rw [cut_closed hclosed]
    exact List.forall_mem_cons.mpr ⟨hatoms, ih hrest⟩
  | case5 count key atoms rest hsingle ih =>
    obtain ⟨hatoms, hrest⟩ := List.forall_mem_cons.mp hitems
    rw [cut_single hsingle]
    exact List.forall_mem_cons.mpr ⟨hatoms, ih hrest⟩

/-- The entries on the first lines, as they are read, are the first ones of the dico. -/
theorem truncated_cut (count : Nat) {entries : List (String × List Atom)}
    (hitems : ∀ entry ∈ entries, ∀ item ∈ entry.2, item.every keeps = true) :
    Truncated (rereadEntries (cut count entries)) entries := by
  induction count, entries using cut.induct with
  | case1 | case2 =>
    rw [cut]
    exact .nil _
  | case3 count key rest entry entries identity inside hopen ih =>
    have hinner := hitems _ List.mem_cons_self _ List.mem_cons_self
    rw [Atom.every_dico] at hinner
    rw [cut_open hopen]
    exact .last key 0 identity rest (ih hinner.2)
  | case4 count key rest entry entries identity inside hclosed ih =>
    obtain ⟨hatoms, hrest⟩ := List.forall_mem_cons.mp hitems
    rw [cut_closed hclosed]
    exact .entry key (sameList_rereadItems fun item hitem => same_reread (hatoms item hitem)) (ih hrest)
  | case5 count key atoms rest hsingle ih =>
    obtain ⟨hatoms, hrest⟩ := List.forall_mem_cons.mp hitems
    rw [cut_single hsingle]
    exact .entry key (sameList_rereadItems fun item hitem => same_reread (hatoms item hitem)) (ih hrest)

/-- Read only the first lines of the text of a dico, in which there is no NaN and the keys are distinct at
each level. What is read is a truncation of the dico, and equals the entries on these lines with the same
keys in the same order at every level, so that nothing in front of the cut is lost. With all lines it
equals the dico in this way. -/
theorem read_firstLines (hproper : (Atom.dico dico).every Atom.isProper = true) (count : Nat) :
    let found := read (firstLines count (text dico))
    Truncated found dico ∧
      (Dico.same found (cut (count - 1) dico) = true ∧
        alikeEntries found (cut (count - 1) dico) = true) ∧
      ((Text.lines (text dico)).length ≤ count →
        Dico.same found dico = true ∧ alikeEntries found dico = true) := by
  have hkeeps := Atom.every_keeps hproper
  have hread := read_firstLines_eq hkeeps count
  rw [Atom.every_dico, keeps, decide_eq_true_eq] at hkeeps
  obtain ⟨hkeys, hitems⟩ := hkeeps
  have hkeysCut := hkeys.sublist (prefix_keys_cut (count - 1) dico).sublist
  have hitemsCut := keeps_cut (count - 1) hitems
  have hequal : Dico.same (read (firstLines count (text dico))) (cut (count - 1) dico) = true ∧
      alikeEntries (read (firstLines count (text dico))) (cut (count - 1) dico) = true := by
    rw [hread]
    exact ⟨same_rereadEntries hkeysCut fun entry hentry item hitem =>
        same_reread (hitemsCut entry hentry item hitem),
      alikeEntries_rereadEntries fun entry hentry item hitem =>
        alike_reread (hitemsCut entry hentry item hitem)⟩
  refine ⟨hread ▸ truncated_cut (count - 1) hitems, hequal, fun hall => ?_⟩
  have hlength : height dico < count - 1 := by
    simp only [lines_text, block, List.length_append, length_lines, List.length_singleton] at hall
    omega
  rwa [cut_of_height_lt hlength] at hequal

/-- A block in a block, with an entry behind each. -/
def stack : Dico :=
  [("outer", [.dico [("inner", [.dico [("x", [.symbol "\x7d"])]]), ("y", [])]]),
    ("z", [.vector [.undefined]])]

/-- What stands on its first four lines: the fifth one closes the inner block. -/
def opened : Dico := [("outer", [.dico [("inner", [.dico [("x", [.symbol "\x7d"])]])]])]

/-- Four lines are read as a truncation, which is what stands on them. -/
theorem read_firstLines_stack : (Atom.dico stack).every Atom.isProper = true ∧
    let found := read (firstLines 4 (text stack))
    Truncated found stack ∧ (Dico.same found opened = true ∧ alikeEntries found opened = true) ∧
      ((Text.lines (text stack)).length ≤ 4 →
        Dico.same found stack = true ∧ alikeEntries found stack = true) := by
  have hproper : (Atom.dico stack).every Atom.isProper = true := by decide
  have hcut : cut 3 stack = opened := by cbv
  have hread := read_firstLines hproper 4
  rw [hcut] at hread
  exact ⟨hproper, hread⟩

end Patchbay.Notation
