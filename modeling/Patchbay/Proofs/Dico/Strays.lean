import Patchbay.Proofs.Dico.Proper

/-!
# Stray lines

A line without double quotes and braces says nothing to the reader. Outside of any block only a brace
could open one, or a dico on one line begin; inside a block only a key in quotes could begin an entry, and
only a brace close the block. So whatever else such a line holds, and wherever it stands, what has been
read stays as it was.
-/

namespace Patchbay.Notation

open Text

/-- A line without double quotes and braces. -/
def Stray (line : List Char) : Prop := ∀ c ∈ line, c ≠ '"' ∧ c ≠ '\x7b' ∧ c ≠ '\x7d'

instance (line : List Char) : Decidable (Stray line) := inferInstanceAs (Decidable (∀ _ ∈ _, _))

/-- The lines of a text with any number of stray lines put in between, before and behind them. -/
inductive Strewn : List (List Char) → List (List Char) → Prop where
  | nil : Strewn [] []
  | kept (line : List Char) {damaged intact : List (List Char)} (h : Strewn damaged intact) :
    Strewn (line :: damaged) (line :: intact)
  | stray {line : List Char} {damaged intact : List (List Char)} (hline : Stray line)
    (h : Strewn damaged intact) : Strewn (line :: damaged) intact

/-! ### Parts of a line -/

/-- What is left of a text when blanks in front are dropped. -/
theorem trimFront_suffix (text : List Char) : trimFront text <:+ text := List.dropWhile_suffix _

/-- What is left of a text when the blanks at both ends are dropped. -/
theorem trim_subset (text : List Char) : trim text ⊆ text := by
  intro c hc
  rw [trim, trimBack, List.mem_reverse] at hc
  have hfront := (List.dropWhile_suffix _).subset hc
  exact (trimFront_suffix text).subset (List.mem_reverse.mp hfront)

/-- What is left of a text when a character at its end is dropped. -/
theorem dropTrailing_subset (c : Char) (text : List Char) : dropTrailing c text ⊆ text := by
  unfold dropTrailing
  split
  · exact List.dropLast_subset text
  · exact List.Subset.refl text

/-- A part of a stray line is stray. -/
theorem Stray.of_subset {line part : List Char} (h : Stray line) (hpart : part ⊆ line) : Stray part :=
  fun c hc => h c (hpart hc)

/-- What is left of a stray line before it is read. -/
theorem Stray.trimmed {line : List Char} (h : Stray line) :
    Stray (trim line) ∧ Stray (dropTrailing ',' (trim line)) :=
  ⟨h.of_subset (trim_subset line),
    h.of_subset (List.Subset.trans (dropTrailing_subset ',' _) (trim_subset line))⟩

/-! ### What a stray line says -/

/-- No entry stands on a stray line, for lack of a key. -/
theorem entry?_stray {line : List Char} (h : Stray line) : entry? line = none := by
  have hkey : string? line = none := by
    unfold string?
    split
    · next rest hrest =>
      exact absurd rfl (h '"' ((trimFront_suffix line).subset (hrest ▸ List.mem_cons_self))).1
    · rfl
  rw [ entry?, hkey, Option.bind_none]

/-- No bare word stands for a dico. -/
theorem toDico?_word {word : List Char} {atom : Atom} (h : word? word = some atom) :
    atom.toDico? = none := by
  have hnumber : ∀ {atom}, number? word = some atom → atom.toDico? = none := by
    intro atom hatom
    simp only [number?] at hatom
    split at hatom
    · obtain rfl := Option.some.inj hatom
      rfl
    · obtain ⟨x, -, rfl⟩ := Option.map_eq_some_iff.mp hatom
      rfl
  unfold word? at h
  split at h
  · obtain rfl := Option.some.inj h
    rfl
  split at h
  · obtain rfl := Option.some.inj h
    rfl
  split at h
  · obtain rfl := Option.some.inj h
    rfl
  · exact hnumber h

/-- No dico stands on a stray line. -/
theorem inline?_stray {line : List Char} (h : Stray line) : inline? line = none := by
  have hatom : ∀ {fuel found}, value? fuel line = some found → found.1.toDico? = none := by
    intro fuel found hfound
    cases fuel with
    | zero => cases hfound
    | succ fuel =>
      rw [value?] at hfound
      split at hfound
      · obtain ⟨_, -, rfl⟩ := Option.map_eq_some_iff.mp hfound
        rfl
      · obtain ⟨_, -, rfl⟩ := Option.map_eq_some_iff.mp hfound
        rfl
      · next rest hrest =>
        exact absurd rfl (h '\x7b' ((trimFront_suffix line).subset (hrest ▸ List.mem_cons_self))).2.1
      · obtain ⟨_, hword, rfl⟩ := Option.map_eq_some_iff.mp hfound
        exact toDico?_word hword
  rw [inline?, Option.bind_eq_none_iff]
  rintro ⟨atom, rest⟩ hfound
  have hnone : atom.toDico? = none := hatom hfound
  simp only [hnone, ite_self]

/-- A stray line leaves what has been read as it was, inside and outside of blocks. -/
theorem line_stray {line : List Char} (h : Stray line) (progress : Progress) :
    progress.line line = progress := by
  obtain ⟨htrim, hread⟩ := h.trimmed
  have hbrace : ∀ rest, trim line ≠ '\x7b' :: rest := fun rest heq =>
    (htrim '\x7b' (heq ▸ List.mem_cons_self)).2.1 rfl
  have hclosing : ¬ (trim line = ['\x7d'] ∨ trim line = ['\x7d', ',']) := by
    rintro (heq | heq) <;> exact (htrim '\x7d' (heq ▸ List.mem_cons_self)).2.2 rfl
  obtain ⟨root, open?⟩ := progress
  cases open? with
  | none => simp only [Progress.line, if_neg (hbrace []), inline?_stray hread, ite_self]
  | some block => simp only [Progress.line, if_neg hclosing, entry?_stray hread, ite_self]

/-- Stray lines among others do not matter. -/
theorem foldl_strewn {damaged intact : List (List Char)} (h : Strewn damaged intact)
    (progress : Progress) :
    damaged.foldl Progress.line progress = intact.foldl Progress.line progress := by
  induction h generalizing progress with
  | nil => rfl
  | kept line _ ih => exact ih (progress.line line)
  | stray hline _ ih => rw [List.foldl_cons, line_stray hline, ih]

/-- Stray lines strewn into the text of a dico, in which there is no NaN and the keys are distinct at each
level, do not matter: what is read is what is read of the text alone, with the keys in the same order. -/
theorem read_strewn {dico : Dico} (hproper : (Atom.dico dico).every Atom.isProper = true)
    {damaged : List Char} (h : Strewn (Text.lines damaged) (Text.lines (text dico))) :
    Dico.same (read damaged) (read (text dico)) = true ∧ read damaged = read (text dico) := by
  have hread : read damaged = read (text dico) :=
    congrArg Progress.finish (foldl_strewn h ⟨[], none⟩)
  refine ⟨?_, hread⟩
  rw [hread, read_text (Atom.every_keeps hproper)]
  exact Dico.same_self (Atom.every_isProper_reread hproper)

/-- A dico with a block in it. -/
def bed : Dico := [("rows", [.dico [("first", [.symbol "a, b", .bool true])]]), ("", [])]

/-- Its lines with others in between that look like parts of them. -/
def litter : List (List Char) :=
  ["# a bed", "\x7b", "]", "    \"rows\" : \x7b", "        second : [ 1, 2 ],",
    "        \"first\" : [ \"a, b\", true ]", "null", "    \x7d,", "", "    \"\" : []", "\x7d",
    ", 7"].map String.toList

/-- The lines in between do not matter. -/
theorem read_strewn_litter : (Atom.dico bed).every Atom.isProper = true ∧
    Strewn (Text.lines (litter.flatMap (· ++ ['\n']))) (Text.lines (text bed)) ∧
      Dico.same (read (litter.flatMap (· ++ ['\n']))) (read (text bed)) = true ∧
      read (litter.flatMap (· ++ ['\n'])) = read (text bed) := by
  have hproper : (Atom.dico bed).every Atom.isProper = true := by decide
  have hblock : block bed = ["\x7b", "    \"rows\" : \x7b", "        \"first\" : [ \"a, b\", true ]",
      "    \x7d,", "    \"\" : []", "\x7d"].map String.toList := by cbv
  have hstrewn : Strewn (Text.lines (litter.flatMap (· ++ ['\n']))) (Text.lines (text bed)) := by
    rw [lines_text, lines_flatMap (by decide +kernel), hblock]
    exact .stray (by simp [Stray]) <| .kept _ <| .stray (by simp [Stray]) <| .kept _ <|
      .stray (by simp [Stray]) <| .kept _ <| .stray (by simp [Stray]) <| .kept _ <|
        .stray (by simp [Stray]) <| .kept _ <| .kept _ <| .stray (by simp [Stray]) .nil
  exact ⟨hproper, hstrewn, read_strewn hproper hstrewn⟩

end Patchbay.Notation
