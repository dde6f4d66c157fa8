import Patchbay.Proofs.Dico.Inline

/-!
# Blocks read back

A line of an entry is the entry's text between its indentation and a comma, and both are dropped before
the entry is read. Only the lines around a block show a brace of their own, because a value that
starts with a brace has another behind it. So each line does to the open block what the entry it was
written for says, and the lines of a dico fill the block with its entries in their order.
-/

namespace Patchbay.Notation

open Text

/-! ### Single lines -/

/-- Trimming a line removes its indentation. -/
theorem trim_indent (depth : Nat) {text front rest : List Char} {first last : Char}
    (hfirst : text = first :: rest) (hlast : text = front ++ [last]) (hfront : isBlank first = false)
    (hback : isBlank last = false) : trim (indent depth ++ text) = text := by
  rw [trim, indent, trimFront_replicate, hfirst, trimFront_cons hfront, ← hfirst, hlast,
    trimBack_concat hback]

/-- What a line of an entry ends in: a comma, unless the entry is the last. -/
def comma (rest : List (String × List Atom)) : List Char := if rest.isEmpty then [] else [',']

/-- The comma is dropped, and nothing but the comma. -/
theorem dropTrailing_comma {text : List Char} (h : Solid text) (rest : List (String × List Atom)) :
    dropTrailing ',' (text ++ comma rest) = text := by
  obtain ⟨front, c, rfl, -, hc⟩ := h.last
  unfold comma dropTrailing
  split <;> simp [hc]

/-- A solid text is left when the line it stands on is trimmed. -/
theorem trim_line (depth : Nat) {text : List Char} (h : Solid text)
    (rest : List (String × List Atom)) :
    trim (indent depth ++ text ++ comma rest) = text ++ comma rest := by
  obtain ⟨first, after, hfirst, hinside⟩ := h.first
  obtain ⟨front, last, hlast, hback, -⟩ := h.last
  have hcons : text ++ comma rest = first :: (after ++ comma rest) := by rw [hfirst, List.cons_append]
  rw [List.append_assoc]
  unfold comma at *
  split at hcons
  · rw [if_pos ‹_›]
    have hend : text ++ [] = front ++ [last] := by rw [List.append_nil, hlast]
    exact trim_indent depth hcons hend (isBlank_of_inWord hinside) hback
  · rw [if_neg ‹_›]
    exact trim_indent depth hcons rfl (isBlank_of_inWord hinside) (by decide)

/-- No value is a left brace alone. -/
theorem value_ne_brace (atom : Atom) : value atom ≠ ['\x7b'] := by
  have hspelling : '\x7b' ∉ spelling := by decide
  have henclose : ∀ {left right : Char} {items : List (List Char)},
      enclose left right items ≠ ['\x7b'] := by
    intro left right items
    unfold enclose
    split <;> simp
  cases atom with
  | undefined => decide
  | bool value => cases value <;> decide
  | long n => exact fun heq => hspelling (mem_spelling_of_mem_long (heq ▸ List.mem_singleton_self _))
  | double x minus =>
    exact fun heq => hspelling (mem_spelling_of_mem_double (heq ▸ List.mem_singleton_self _))
  | symbol text => simp [value, quote]
  | vector items => exact henclose
  | dico entries identity => exact henclose

/-- The value of an entry is no left brace alone. -/
theorem spread_ne_brace (atoms : List Atom) : spread atoms (values atoms) ≠ ['\x7b'] := by
  rcases spread_values atoms with hlist | ⟨atom, rfl, -, hsingle⟩
  · rw [hlist]
    exact value_ne_brace (.vector atoms)
  · rw [hsingle]
    exact value_ne_brace atom

/-- An entry is read back from its text. -/
theorem entry?_field {entry : String × List Atom} (h : ∀ atom ∈ entry.2, Readable atom) :
    entry? (field entry) = some (.entry entry.1 (rereadItems entry.2)) := by
  obtain ⟨first, rest, hfirst, hinside⟩ := (solid_side entry).first
  obtain ⟨front, last, hlast, hback, -⟩ := (solid_side entry).last
  have htrim : trim (' ' :: spread entry.2 (values entry.2)) ≠ ['\x7b'] := by
    rw [trim, trimFront_cons_blank (by decide), hfirst, trimFront_cons (isBlank_of_inWord hinside),
      ← hfirst, hlast, trimBack_concat hback, ← hlast]
    exact spread_ne_brace entry.2
  have hkey := string?_field entry []
  rw [List.append_nil, List.append_nil] at hkey
  have hfuel : 4 * (spread entry.2 (values entry.2)).length + 1 ≤
      steps (' ' :: spread entry.2 (values entry.2)) := by
    simp only [steps, List.length_cons]
    omega
  have hatoms := atoms?_spread h hfuel [] (by simp)
  rw [List.append_nil, ← atoms?_blank] at hatoms
  simp only [hkey, entry?, Option.bind_some, mark?_colon, htrim, if_false, hatoms]
  rfl

/-- A key with a left brace behind it opens a block. -/
theorem entry?_opens (key : String) :
    entry? (quote lineCode key.toList ++ " : ".toList ++ ['\x7b']) = some (.opens key) := by
  have htrim : trim [' ', '\x7b'] = ['\x7b'] := by decide
  simp [List.append_assoc, entry?, string?_quote, mark?_colon, htrim, -String.reduceToList]

variable {root filled : Dico} {around : List (Dico × String)}

/-- The line of an entry stores its atoms in the open block. -/
theorem line_field {entry : String × List Atom} (h : ∀ atom ∈ entry.2, Readable atom) (depth : Nat)
    (rest : List (String × List Atom)) :
    Progress.line ⟨root, some ⟨filled, around⟩⟩ (indent depth ++ field entry ++ comma rest) =
      ⟨root, some ⟨filled.set entry.1 (rereadItems entry.2), around⟩⟩ := by
  have htrim := trim_line depth (solid_field entry) rest
  have hdrop := dropTrailing_comma (solid_field entry) rest
  have hquote : ∃ text, field entry ++ comma rest = '"' :: text := by
    simp [field, quote]
  obtain ⟨text, htext⟩ := hquote
  simp only [Progress.line, htrim]
  rw [if_neg (by simp [htext]), if_neg (by simp [htext]), hdrop, entry?_field h]

/-- A line with a key and a left brace opens a block. -/
theorem line_opens (key : String) (depth : Nat) :
    Progress.line ⟨root, some ⟨filled, around⟩⟩
        (indent depth ++ (quote lineCode key.toList ++ " : ".toList ++ ['\x7b'])) =
      ⟨root, some ⟨[], (filled, key) :: around⟩⟩ := by
  have htrim : trim (indent depth ++ (quote lineCode key.toList ++ " : ".toList ++ ['\x7b'])) =
      quote lineCode key.toList ++ " : ".toList ++ ['\x7b'] :=
    trim_indent depth rfl rfl (by decide) (by decide)
  have hdrop : dropTrailing ',' (quote lineCode key.toList ++ " : ".toList ++ ['\x7b']) =
      quote lineCode key.toList ++ " : ".toList ++ ['\x7b'] := by
    simp [dropTrailing]
  simp only [Progress.line, htrim]
  rw [if_neg (by simp [quote]), if_neg (by simp [quote]), hdrop, entry?_opens]

/-- A line with a right brace closes the block into the one around it. -/
theorem line_closes {outer : Dico} (key : String) (depth : Nat) (rest : List (String × List Atom)) :
    Progress.line ⟨root, some ⟨filled, (outer, key) :: around⟩⟩
        (indent depth ++ '\x7d' :: comma rest) =
      ⟨root, some ⟨outer.set key [.dico filled], around⟩⟩ := by
  have htrim : trim (indent depth ++ '\x7d' :: comma rest) = '\x7d' :: comma rest := by
    unfold comma
    split
    · have hend : ['\x7d'] = [] ++ ['\x7d'] := rfl
      exact trim_indent depth rfl hend (by decide) (by decide)
    · have hend : ['\x7d', ','] = ['\x7d'] ++ [','] := rfl
      exact trim_indent depth rfl hend (by decide) (by decide)
  have hbrace : '\x7d' :: comma rest = ['\x7d'] ∨ '\x7d' :: comma rest = ['\x7d', ','] := by
    unfold comma
    split
    · exact Or.inl rfl
    · exact Or.inr rfl
  simp only [Progress.line, htrim]
  rw [if_neg (by simp), if_pos hbrace]
  rfl

/-! ### All lines -/

/-- The lines of an entry: three or more around the lines of a filled dico that stands alone, one
otherwise. -/
theorem lines_cons (depth : Nat) (key : String) (atoms : List Atom)
    (rest : List (String × List Atom)) :
    (∃ entry entries identity, atoms = [.dico (entry :: entries) identity] ∧
      lines depth ((key, atoms) :: rest) =
        (indent depth ++ (quote lineCode key.toList ++ " : ".toList ++ ['\x7b'])) ::
          lines (depth + 1) (entry :: entries) ++
        (indent depth ++ '\x7d' :: comma rest) :: lines depth rest) ∨
    (∀ entry entries identity, atoms ≠ [.dico (entry :: entries) identity]) ∧
      lines depth ((key, atoms) :: rest) =
        (indent depth ++ field (key, atoms) ++ comma rest) :: lines depth rest := by
  match atoms with
  | [.dico (entry :: entries) identity] =>
    refine Or.inl ⟨entry, entries, identity, rfl, ?_⟩
    simp [lines, comma]
  | [] | [.dico [] _] => exact Or.inr (by simp [lines, comma, field])
  | [.undefined] | [.bool _] | [.long _] | [.double _ _] | [.symbol _] | [.vector _] =>
    exact Or.inr (by simp [lines, comma, field])
  | _ :: _ :: _ => exact Or.inr (by simp [lines, comma, field])

/-- An entry with a key of its own is stored behind the others, and leaves the keys distinct. -/
theorem set_new {key : String} {atoms : List Atom} {rest : List (String × List Atom)}
    (hkeys : (Keyed.keys (filled ++ (key, atoms) :: rest)).Nodup) (found : List Atom) :
    filled.set key found = filled ++ [(key, found)] ∧
      (Keyed.keys (filled.set key found ++ rest)).Nodup := by
  have hnew : key ∉ Keyed.keys filled := by
    rw [Keyed.keys, List.map_append, List.map_cons] at hkeys
    exact fun hmem => (List.nodup_append.mp hkeys).2.2 _ hmem _ List.mem_cons_self rfl
  have hset := Keyed.set_of_notMem hnew found
  refine ⟨hset, ?_⟩
  rw [hset]
  simpa [Keyed.keys] using hkeys

/-- The lines of a dico fill the open block with its entries. -/
theorem foldl_lines {entries : List (String × List Atom)} (depth : Nat)
    (hitems : ∀ entry ∈ entries, ∀ item ∈ entry.2, item.every keeps = true) (filled : Dico)
    (hkeys : (Keyed.keys (filled ++ entries)).Nodup) {around : List (Dico × String)} :
    (lines depth entries).foldl Progress.line ⟨root, some ⟨filled, around⟩⟩ =
      ⟨root, some ⟨filled ++ rereadEntries entries, around⟩⟩ := by
  induction depth, entries using lines.induct generalizing filled around with
  | case1 depth => simp [lines, rereadEntries]
  | case2 depth key atoms rest ihBlock ihRest =>
    obtain ⟨hatoms, hrest⟩ := List.forall_mem_cons.mp hitems
    obtain ⟨hset, hstored⟩ := set_new hkeys (rereadItems atoms)
    have hfinal : filled.set key (rereadItems atoms) ++ rereadEntries rest =
        filled ++ rereadEntries ((key, atoms) :: rest) := by
      rw [hset, rereadEntries, List.append_assoc, List.singleton_append]
    rcases lines_cons depth key atoms rest with ⟨entry, entries, identity, rfl, hlines⟩ | ⟨-, hlines⟩
    · have hinner := hatoms _ List.mem_cons_self
      rw [Atom.every_dico, keeps, decide_eq_true_eq] at hinner
      have hread : rereadItems [.dico (entry :: entries) identity] =
          [.dico (rereadEntries (entry :: entries))] := rfl
      rw [hlines, List.foldl_append, List.foldl_cons, List.foldl_cons, line_opens,
        ihBlock hinner.2 [] hinner.1, List.nil_append, line_closes, ← hread, ihRest hrest _ hstored, hfinal]
    · have hreadable : ∀ atom ∈ atoms, Readable atom := fun atom hatom =>
        readable (hatoms atom hatom)
      rw [hlines, List.foldl_cons, line_field hreadable, ihRest hrest _ hstored, hfinal]

/-- Every line stays on its line. -/
theorem newline_notMem_lines (depth : Nat) (entries : List (String × List Atom)) :
    ∀ line ∈ lines depth entries, '\n' ∉ line := by
  have hindent : ∀ depth, '\n' ∉ indent depth := by
    intro depth hmem
    exact absurd (List.eq_of_mem_replicate hmem) (by decide)
  have hcomma : ∀ rest, '\n' ∉ comma rest := by
    intro rest
    unfold comma
    split <;> decide
  have hbrace : '\n' ∉ " : ".toList := by decide
  induction depth, entries using lines.induct with
  | case1 depth => simp [lines]
  | case2 depth key atoms rest ihBlock ihRest =>
    intro line hline
    rcases lines_cons depth key atoms rest with ⟨entry, entries, identity, rfl, hlines⟩ | ⟨-, hlines⟩
    · rw [hlines] at hline
      rcases List.mem_append.mp hline with hblock | hafter
      · rcases List.mem_cons.mp hblock with rfl | hinner
        · simp only [List.mem_append, not_or]
          exact ⟨hindent depth, ⟨(solid_quote _).oneLine, hbrace⟩, by decide⟩
        · exact ihBlock line hinner
      · rcases List.mem_cons.mp hafter with rfl | hrest
        · simp only [List.mem_append, List.mem_cons, not_or]
          exact ⟨hindent depth, by decide, hcomma rest⟩
        · exact ihRest line hrest
    · rw [hlines] at hline
      rcases List.mem_cons.mp hline with rfl | hrest
      · simp only [List.mem_append, not_or]
        exact ⟨⟨hindent depth, (solid_field _).oneLine⟩, hcomma rest⟩
      · exact ihRest line hrest

/-- No line of a block goes on behind a newline. -/
theorem newline_notMem_block (dico : Dico) : ∀ line ∈ block dico, '\n' ∉ line := by
  intro line hline
  simp only [block, List.mem_append, List.mem_singleton] at hline
  rcases hline with (rfl | hline) | rfl
  · decide
  · exact newline_notMem_lines 1 dico line hline
  · decide

/-- The lines of a dico are the lines of its text. -/
theorem lines_text (dico : Dico) : Text.lines (text dico) = block dico :=
  lines_flatMap (newline_notMem_block dico)

/-- Outside of any block a left brace opens one. -/
theorem line_brace : Progress.line ⟨root, none⟩ ['\x7b'] = ⟨root, some ⟨[], []⟩⟩ := by
  have htrim : trim ['\x7b'] = ['\x7b'] := by decide
  simp [Progress.line, htrim]

/-- A dico with distinct keys, whose numerals are read back, is read back from its text. -/
theorem read_text {dico : Dico} (h : (Atom.dico dico).every keeps = true) :
    read (text dico) = rereadEntries dico := by
  rw [Atom.every_dico, keeps, decide_eq_true_eq] at h
  obtain ⟨hkeys, hitems⟩ := h
  have hclose : Progress.line ⟨[], some ⟨rereadEntries dico, []⟩⟩ ['\x7d'] =
      ⟨rereadEntries dico, none⟩ := by
    have htrim : trim ['\x7d'] = ['\x7d'] := by decide
    have hstored : Keyed.merge [] (rereadEntries dico) = rereadEntries dico := by
      refine Keyed.merge_of_nodup ?_
      rw [List.nil_append, keys_rereadEntries]
      exact hkeys
    simp [Progress.line, Progress.close, htrim, hstored]
  rw [read, readInto, lines_text, block, List.foldl_append, List.foldl_append]
  simp only [List.foldl_cons, List.foldl_nil, line_brace]
  rw [foldl_lines 1 hitems [] hkeys, List.nil_append, hclose]
  rfl

end Patchbay.Notation
