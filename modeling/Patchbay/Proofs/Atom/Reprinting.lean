import Patchbay.Proofs.Atom.Words
import Patchbay.Proofs.Number.ReadBack

/-!
# A line read, written and read again

A line has integers, doubles and symbols, and no double of a line is a NaN. A numeral of very many digits
stands for an infinite double, though, whose text is a name and no numeral. So a line that is written from
what was read, and read again, has as many atoms: an infinite double is found as a symbol, and every other
atom equals the one that was read.
-/

namespace Patchbay

/-- Decide whether an atom is an infinite double. -/
def Atom.isInfinite : Atom → Bool
  | .double x _ => x.isInf
  | _ => false

/-- A double that is neither a NaN nor infinite is finite. -/
theorem Double.isFinite_of_isInf {x : Float} (hnan : x.isNaN = false) (hinf : x.isInf = false) :
    x.isFinite = true := by
  change x.toModel.unpack.isNaN = false at hnan
  change x.toModel.unpack.isInf = false at hinf
  change x.toModel.unpack.isFinite = true
  cases hx : x.toModel.unpack with
  | notANumber =>
    rw [hx] at hnan
    cases hnan
  | infinity =>
    rw [hx] at hinf
    cases hinf
  | zero | finite => rfl

namespace Words

/-- No word stands for a NaN. -/
theorem isNaN_of_denotes {word : List Char} {atom : Atom} (h : Denotes word atom) {x : Float}
    {minus : Bool} (hatom : atom = .double x minus) : x.isNaN = false := by
  have hnearest : ∀ (negative : Bool) (digits : Nat) (exponent : Int),
      (if negative then -Numeral.nearestDouble digits exponent
        else Numeral.nearestDouble digits exponent).isNaN = false := by
    intro negative digits exponent
    have hnan := Numeral.isNaN_nearestDouble digits exponent
    cases negative with
    | false => exact hnan
    | true => exact Double.isNaN_neg hnan
  cases h with
  | long | symbol => cases hatom
  | large | decimal =>
    obtain ⟨rfl, -⟩ := Atom.double.inj hatom
    exact hnearest _ _ _

/-- No NaN is read of a line. -/
theorem isNaN_of_mem_read {line : List Char} {x : Float} {minus : Bool}
    (h : Atom.double x minus ∈ read line) : x.isNaN = false := by
  have hreads := reads_read line
  generalize read line = atoms at h hreads
  induction hreads with
  | done => cases h
  | blank _ _ ih => exact ih h
  | quoted _ _ ih =>
    rcases List.mem_cons.mp h with hsymbol | hmem
    · cases hsymbol
    · exact ih hmem
  | bare _ _ _ _ hatom _ ih =>
    rcases List.mem_cons.mp h with hdouble | hmem
    · exact isNaN_of_denotes hatom hdouble.symm
    · exact ih hmem

/-- The text of an infinite double is a name and stands for a symbol. -/
theorem ofWord_atomDouble_of_isInf {x : Float} (h : x.isInf = true) :
    ofWord (Numeral.atomDouble x) = .symbol (String.ofList (Numeral.atomDouble x)) := by
  have hnone : Binary.ofDouble? x = none := by
    change x.toModel.unpack.isInf = true at h
    have hstands := Double.stands x
    generalize Binary.ofDouble? x = value? at hstands ⊢
    generalize x.toModel.unpack = unpacked at h hstands
    cases hstands with
    | infinity | notANumber => rfl
    | zero | finite => cases h
  have hnames : ∀ name ∈ ["inf".toList, "-inf".toList, "NaN".toList], isNumeral name = false := by
    decide
  rw [ofWord, hnames _ (by simpa using Numeral.atomDouble_special hnone), if_neg Bool.false_ne_true]

/-- How an atom of a line is found in the line written from what was read: an infinite double is a symbol,
the name that is written for it, and any other atom is equal, and a symbol or an integer as it was. -/
structure Restated (found original : Atom) : Prop where
  finite : original.isInfinite = false → Returns found original
  infinite : original.isInfinite = true → found = .symbol (String.ofList (word original))

/-- A token that is no NaN is found so. -/
theorem Token.restated {atom : Atom} (h : Token atom)
    (hnan : ∀ x minus, atom = .double x minus → x.isNaN = false) : Restated (reread atom) atom := by
  cases h with
  | long n => exact ⟨fun _ => (Storable.long n).returns, fun hinf => by cases hinf⟩
  | symbol text => exact ⟨fun _ => (Storable.symbol text).returns, fun hinf => by cases hinf⟩
  | double x minus =>
    refine ⟨fun hinf => ?_, fun hinf => ofWord_atomDouble_of_isInf hinf⟩
    have hfinite := Double.isFinite_of_isInf (hnan x minus rfl) hinf
    exact (Storable.double x minus hfinite (Numeral.readsBack x)).returns

/-- Whatever a line holds: written from what was read of it and read again, it has as many atoms, each
equal to the one that was read, but for the infinite doubles, which are found as symbols. -/
theorem read_write_read (line : List Char) :
    (read (write (read line))).length = (read line).length ∧
      List.Forall₂ Restated (read (write (read line))) (read line) := by
  rw [read_write fun atom hatom => token_of_mem_read hatom]
  refine ⟨List.length_map _, ?_⟩
  rw [List.forall₂_map_left_iff, List.forall₂_same]
  intro atom hatom
  refine (token_of_mem_read hatom).restated fun x minus heq => ?_
  exact isNaN_of_mem_read (heq ▸ hatom)

/-- The digits of a number of more than 64 bits are read as the double nearest to it. -/
theorem read_nat_of_large {n : Nat} (h : 2 ^ 63 ≤ n) :
    read (Numeral.nat n) = [.double (Numeral.nearestDouble n 0)] := by
  have hdigits := Numeral.digits_nat n
  have hletters : ∀ c ∈ Numeral.nat n, c ∈ Numeral.letters := fun c hc =>
    Numeral.mem_letters_of_isDigit (hdigits.2 c hc)
  have hlarge : Long.ofInt? n = none := by
    rw [Option.eq_none_iff_forall_ne_some]
    intro value hvalue
    have hinside := Numeral.ofInt?_eq_some_iff.mp hvalue
    have hmost := Int64.toInt_lt value
    omega
  have hword : ofWord (Numeral.nat n) = .double (Numeral.nearestDouble n 0) := by
    have hsigned := ofWord_signed hdigits false
    simp only [Bool.false_eq_true, if_false, Numeral.natValue_nat, hlarge] at hsigned
    exact hsigned
  have hline : read (Numeral.nat n ++ []) = ofWord (Numeral.nat n) :: read [] :=
    read_unquoted hdigits.1
      (fun hhead => ne_quote_of_mem_letters (hletters _ (List.mem_of_head? hhead)) rfl)
      (fun c hc => isBlank_of_mem_letters (hletters c hc)) (by simp)
  rwa [List.append_nil, hword, read] at hline

/-- The digits of 10^309, which is nearer to infinity than to any double, are found as a symbol: a line
does not always come back equal. -/
theorem read_write_read_overflowing :
    ¬ ∀ line, (read (write (read line))).length = (read line).length ∧
      List.Forall₂ (fun found original => Atom.same found original = true)
        (read (write (read line))) (read line) := by
  intro hall
  obtain ⟨n, hn⟩ : ∃ n, n = 10 ^ 309 := ⟨_, rfl⟩
  have hinfinite : (Numeral.nearestDouble n 0).isInf = true := by
    rw [hn]
    decide +kernel
  have hread : read (Numeral.nat n) = [.double (Numeral.nearestDouble n 0)] := by
    have hpower : ∀ power, 19 ≤ power → 2 ^ 63 ≤ 10 ^ power := fun power hpower =>
      (by decide : 2 ^ 63 ≤ 10 ^ 19).trans (Nat.pow_le_pow_right (by decide) hpower)
    exact read_nat_of_large (hn ▸ hpower 309 (by decide))
  have hsame := (hall (Numeral.nat n)).2
  rw [hread, read_write fun atom hatom => List.mem_singleton.mp hatom ▸ .double _ _, List.map_singleton,
    reread, ofWord_atomDouble_of_isInf hinfinite, List.forall₂_cons] at hsame
  exact Bool.false_ne_true hsame.1

end Words

end Patchbay
