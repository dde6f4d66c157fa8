import Patchbay.Proofs.Atom.Words
import Patchbay.Proofs.Dico.Inline
import Patchbay.Proofs.Number.Places

/-!
# Doubles among the words of a text

A line of atoms and a dico are read by readers of their own, with rules of their own for what is a number.
For the numeral of a finite double both find the same: the integer that the numeral is, if it is one, and
the double otherwise. The numeral is one of an integer for the whole numbers of sixteen digits or more in
the range of 64 bits, so these change their kind when they are written and read; the integer stands for the
same double.
-/

namespace Patchbay

namespace Numeral

/-- The atom that the numeral of a finite double is read as. -/
def atom (x : Float) : Atom :=
  match readLong? (atomDouble x) with
  | some n => .long n
  | none => .double x

/-- A numeral that no integer is read of stands for the double. -/
theorem atom_of_readLong? {x : Float} (h : readLong? (atomDouble x) = none) : atom x = .double x := by
  rw [atom, h]

/-- A finite double is spelled with digits, a point and a minus sign. -/
theorem isDigit_or_eq_of_mem_atomDouble {x : Float} (h : x.isFinite = true) {c : Char}
    (hc : c ∈ atomDouble x) : isDigit c = true ∨ c = '.' ∨ c = '-' := by
  obtain ⟨value, hvalue⟩ := Double.exists_of_isFinite h
  obtain ⟨magnitude, hmagnitude, htext⟩ := atomDouble_finite hvalue
  have hinside : c ∈ magnitude → isDigit c = true ∨ c = '.' ∨ c = '-' := fun hc =>
    (hmagnitude.isDigit_or_eq hc).imp_right Or.inl
  rw [htext, signed] at hc
  split at hc
  · rcases List.mem_cons.mp hc with rfl | hc
    · exact Or.inr (Or.inr rfl)
    · exact hinside hc
  · exact hinside hc

/-- No integer is read of a numeral with a point. -/
theorem readLong?_eq_none_of_point {x : Float} (h : x.isFinite = true) (hpoint : '.' ∈ atomDouble x) :
    readLong? (atomDouble x) = none := by
  obtain ⟨value, hvalue⟩ := Double.exists_of_isFinite h
  obtain ⟨magnitude, hmagnitude, htext⟩ := atomDouble_finite hvalue
  rw [htext, signed] at hpoint
  have hinside : '.' ∈ magnitude := by
    split at hpoint
    · exact (List.mem_cons.mp hpoint).resolve_left (by decide)
    · exact hpoint
  exact htext ▸ hmagnitude.readLong?_eq_none hinside value.negative

/-- On a line the numeral of a finite double is that atom. -/
theorem ofWord_eq_atom {x : Float} (h : x.isFinite = true) : Words.ofWord (atomDouble x) = atom x := by
  obtain ⟨value, hvalue⟩ := Double.exists_of_isFinite h
  obtain ⟨magnitude, hmagnitude, htext⟩ := atomDouble_finite hvalue
  have hnumeral : Words.isNumeral (atomDouble x) = true :=
    htext ▸ Words.isNumeral_magnitude hmagnitude value.negative
  have hdouble : (readDouble? (atomDouble x)).getD 0.0 = x := by
    rw [show readDouble? (atomDouble x) = some x from readsBack x, Option.getD_some]
  simp only [Words.ofWord, hnumeral, hdouble, if_true]
  split
  · next hpoint =>
    rw [List.contains_iff_mem] at hpoint
    exact (atom_of_readLong? (readLong?_eq_none_of_point h hpoint)).symm
  · rfl

/-- Of the marks by which a dico tells doubles, the numeral of a finite double has the point alone. -/
theorem floating_eq_contains {x : Float} (h : x.isFinite = true) :
    ((atomDouble x).any (fun c => c == '.' || c == 'e' || c == 'E') ||
      "inf".toList.isSuffixOf (atomDouble x) || atomDouble x == "NaN".toList) =
      (atomDouble x).contains '.' := by
  have hother : ∀ {c}, ¬ (isDigit c = true ∨ c = '.' ∨ c = '-') → c ∉ atomDouble x :=
    fun hneither hmem => hneither (isDigit_or_eq_of_mem_atomDouble h hmem)
  have hinf : "inf".toList.isSuffixOf (atomDouble x) = false := by
    rw [← Bool.not_eq_true, List.isSuffixOf_iff_suffix]
    exact fun hsuffix => hother (c := 'f') (by decide) (hsuffix.subset (by decide))
  have hnan : (atomDouble x == "NaN".toList) = false := by
    rw [beq_eq_false_iff_ne]
    exact fun heq => hother (c := 'N') (by decide) (heq ▸ by decide)
  rw [hinf, hnan, Bool.or_false, Bool.or_false, Bool.eq_iff_iff, List.any_eq_true,
    List.contains_iff_mem]
  constructor
  · rintro ⟨c, hc, hmark⟩
    simp only [Bool.or_eq_true, beq_iff_eq] at hmark
    rcases hmark with (rfl | rfl) | rfl
    · exact hc
    · exact absurd hc (hother (by decide))
    · exact absurd hc (hother (by decide))
  · exact fun hpoint => ⟨'.', hpoint, by decide⟩

/-- In a dico it is the same atom. -/
theorem number?_eq_atom {x : Float} (h : x.isFinite = true) :
    Notation.number? (atomDouble x) = some (atom x) := by
  have hdouble : readDouble? (atomDouble x) = some x := readsBack x
  have hplain : ∀ minus, Atom.signed minus x = .double x := by
    intro minus
    rw [Atom.signed, Double.isNaN_of_isFinite h, Bool.and_false]
  simp only [Notation.number?, floating_eq_contains h, hdouble, Option.map_some, hplain]
  split
  · next n hn =>
    split at hn
    · cases hn
    · rw [atom, hn]
  · next hnone =>
    split at hnone
    · next hpoint =>
      rw [List.contains_iff_mem] at hpoint
      rw [atom_of_readLong? (readLong?_eq_none_of_point h hpoint)]
    · rw [atom_of_readLong? hnone]

/-- What a double's numeral is read as by the two readers, wherever it stands: on a line up to the next
blank, and in a dico up to the next end of a word. -/
structure ReadAs (x : Float) (found : Atom) : Prop where
  line : ∀ rest : List Char, (∀ c ∈ rest.head?, Text.isBlank c = true) →
    Words.read (atomDouble x ++ rest) = found :: Words.read rest
  dico : ∀ (fuel : Nat) (rest : List Char), (∀ c ∈ rest.head?, Notation.inWord c = false) →
    Notation.value? (fuel + 1) (atomDouble x ++ rest) = some (found, rest)

/-- The readers find the one atom of a finite double. -/
theorem readAs_atom {x : Float} (h : x.isFinite = true) : ReadAs x (atom x) := by
  have hletters : atomDouble x ⊆ letters := fun _ hc => mem_letters_of_mem_atomDouble hc
  have hne := atomDouble_ne_nil x
  constructor
  · intro rest hrest
    rw [← ofWord_eq_atom h]
    refine Words.read_unquoted hne (fun hhead => ?_)
      (fun c hc => Words.isBlank_of_mem_letters (hletters hc)) hrest
    exact Words.ne_quote_of_mem_letters (hletters (List.mem_of_head? hhead)) rfl
  · intro fuel rest hrest
    refine Notation.value?_word hne
      (fun c hc => Notation.mem_spelling_of_mem_letters (hletters hc)) ?_ fuel hrest
    rw [Notation.word?_of_letters hletters, number?_eq_atom h]

end Numeral

/-- A finite double is read back from its numeral as it is, on a line and in a dico alike, unless it is a
whole number of sixteen digits or more in the range of 64 bits. Such a double is read as an integer, and
that integer stands for the double. -/
theorem Double.readAs_of_isFinite {x : Float} (h : x.isFinite = true) :
    if looksLong x then ∃ n : Int64, Long.toDouble n = x ∧ Numeral.ReadAs x (.long n)
    else Numeral.ReadAs x (.double x) := by
  obtain ⟨value, hvalue⟩ := Double.exists_of_isFinite h
  have hlooks := Numeral.isSome_readLong?_atomDouble hvalue
  have hread := Numeral.readAs_atom h
  cases hlong : Numeral.readLong? (Numeral.atomDouble x) with
  | some n =>
    have hlooks : looksLong x = true := by
      rw [← hlooks, hlong]
      rfl
    have hlonger : Numeral.atom x = .long n := by rw [Numeral.atom, hlong]
    rw [if_pos hlooks]
    exact ⟨n, (Numeral.eq_of_readLong?_atomDouble (Numeral.readsBack x) hlong).2, hlonger ▸ hread⟩
  | none =>
    have hlooks : ¬ looksLong x = true := by
      rw [← hlooks, hlong]
      exact Bool.false_ne_true
    rw [if_neg hlooks]
    exact Numeral.atom_of_readLong? hlong ▸ hread

/-- A double with a point in its numeral, one of sixteen digits, and one that is out of range. -/
theorem Double.readAs_of_isFinite_each :
    Numeral.ReadAs (-0.0) (.double (-0.0)) ∧
      (∃ n : Int64, Long.toDouble n = -1e18 ∧
        Numeral.ReadAs (-1e18) (.long n)) ∧
      Numeral.ReadAs 9223372036854775808.0 (.double 9223372036854775808.0) := by
  have hzero := readAs_of_isFinite (x := -0.0) (by decide +kernel)
  have hlong := readAs_of_isFinite (x := -1e18) (by decide +kernel)
  have hlarge := readAs_of_isFinite (x := 9223372036854775808.0) (by decide +kernel)
  rw [if_neg (by decide +kernel)] at hzero hlarge
  rw [if_pos (by decide +kernel)] at hlong
  exact ⟨hzero, hlong, hlarge⟩

/-- The numeral of 10^15 is that of the integer: not every finite double is read back as a double. -/
theorem Double.not_forall_readAs : ¬ ∀ x : Float, x.isFinite = true → Numeral.ReadAs x (.double x) := by
  intro hall
  have hdouble := (hall 1e15 (by decide +kernel)).line [] (by simp)
  have hatom := (Numeral.readAs_atom (x := 1e15) (by decide +kernel)).line [] (by simp)
  have hlong : Numeral.readLong? (Numeral.atomDouble 1e15) = some 1000000000000000 := by decide +kernel
  rw [Numeral.atom, hlong] at hatom
  rw [hdouble] at hatom
  cases (List.cons.inj hatom).1

end Patchbay
