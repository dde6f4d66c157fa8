import Patchbay.Proofs.Atom.Words

/-!
# Texts that are read differently twice

A text may be one symbol, and the symbol be a text that is read as something else. Only a quoted symbol can
be like that: a bare word is read as itself again.
-/

namespace Patchbay

namespace Words

open Text

/-- A text is one symbol, not the empty one, and this is read as something else by itself. -/
def Ambiguous (text : List Char) : Prop :=
  ∃ name, read text = [.symbol name] ∧ name ≠ "" ∧ read name.toList ≠ [.symbol name]

/-- If nothing is read of a text, there is nothing but blanks. -/
theorem isBlank_of_read_eq_nil {text : List Char} (h : read text = []) :
    ∀ c ∈ text, isBlank c = true := by
  have hreads := reads_read text
  rw [h] at hreads
  generalize hnone : ([] : List Atom) = atoms at hreads
  induction hreads with
  | done => exact List.forall_mem_nil _
  | blank hblank _ ih =>
    refine List.forall_mem_cons.mpr ⟨hblank, ih ?_ hnone⟩
    rwa [read_blank hblank] at h
  | quoted | bare => cases hnone

/-- A bare word that stands for a symbol is this symbol by itself. -/
theorem read_bare_symbol {word rest : List Char} {name : String} (hword : word ≠ [])
    (hblank : ∀ c ∈ word, isBlank c = false)
    (hopens : ¬∃ run symbol rest', Opens (word ++ rest) run symbol rest')
    (hatom : Denotes word (.symbol name)) : read name.toList = [.symbol name] := by
  have hsymbol := ofWord_eq_iff.mpr hatom
  have hquote : quoted? (word ++ []) = none := by
    rw [List.append_nil]
    refine quoted?_eq_none_iff.mpr ?_
    rintro ⟨run, symbol, after, rfl, hrun⟩
    exact hopens ⟨run, symbol, after ++ rest, by simp, hrun⟩
  have hread := read_bare hword hquote hblank (by simp)
  rwa [List.append_nil, hsymbol, ← eq_of_ofWord_eq_symbol hsymbol, read] at hread

/-- Nothing comes behind a symbol that is the whole text. -/
theorem eq_nil_of_read_eq_cons {name : String} {atoms : List Atom}
    (h : read name.toList = .symbol name :: atoms) : atoms = [] := by
  have hreads := reads_read name.toList
  rw [h] at hreads
  generalize hline : name.toList = line at hreads
  generalize hfound : Atom.symbol name :: atoms = found at hreads
  cases hreads with
  | done => cases hfound
  | @blank c rest _ _ hrest =>
    have hmem : Atom.symbol name ∈ read rest := by
      rw [(read_eq_iff_reads rest found).mpr hrest, ← hfound]
      exact List.mem_cons_self
    have hlength := length_le_of_symbol_mem_read hmem
    rw [hline, List.length_cons] at hlength
    omega
  | @quoted _ run symbol rest _ hopens _ =>
    obtain ⟨rfl, hrun⟩ := hopens
    have hclose : closeQuote? (run ++ '"' :: rest) = some (symbol, rest) :=
      closeQuote?_eq_some_iff.mpr ⟨run, rfl, hrun⟩
    have hlength := length_le_of_closeQuote? hclose
    have hsymbol : name.toList = symbol := by
      rw [Atom.symbol.inj (List.cons.inj hfound).1, String.toList_ofList]
    rw [← hsymbol, hline, List.length_cons] at hlength
    omega
  | @bare word rest atom _ _ _ _ _ hatom hafter =>
    obtain ⟨rfl, rfl⟩ := List.cons.inj hfound
    have hword := eq_of_ofWord_eq_symbol (ofWord_eq_iff.mpr hatom)
    obtain rfl : rest = [] := by rwa [hword, List.self_eq_append_right] at hline
    rw [← (read_eq_iff_reads [] atoms).mpr hafter, read]

/-- So a text in which no quote stands is not ambiguous: one that is has a quoted symbol and nothing but
blanks before and behind it. -/
theorem Ambiguous.exists_quoted {text : List Char} (h : Ambiguous text) :
    ∃ before run name after, text = before ++ '"' :: (run ++ '"' :: after) ∧
      (∀ c ∈ before, isBlank c = true) ∧ (∀ c ∈ after, isBlank c = true) ∧ Unescapes run name := by
  obtain ⟨name, hread, -, hagain⟩ := h
  have hreads := reads_read text
  rw [hread] at hreads
  generalize hfound : [Atom.symbol name] = found at hreads
  induction hreads with
  | done => cases hfound
  | @blank c _ _ hblank _ ih =>
    rw [read_blank hblank] at hread
    obtain ⟨before, run, symbol, after, rfl, hbefore, hafter, hrun⟩ := ih hread hfound
    exact ⟨c :: before, run, symbol, after, rfl, List.forall_mem_cons.mpr ⟨hblank, hbefore⟩, hafter,
      hrun⟩
  | @quoted _ run symbol after _ hopens hrest _ =>
    obtain ⟨rfl, hrun⟩ := hopens
    have hnone := (read_eq_iff_reads after _).mpr hrest
    rw [← (List.cons.inj hfound).2] at hnone
    exact ⟨[], run, symbol, after, rfl, List.forall_mem_nil _, isBlank_of_read_eq_nil hnone, hrun⟩
  | bare hword hblank _ hopens hatom _ _ =>
    obtain ⟨rfl, -⟩ := List.cons.inj hfound
    exact absurd (read_bare_symbol hword hblank hopens hatom) hagain

end Words

end Patchbay
