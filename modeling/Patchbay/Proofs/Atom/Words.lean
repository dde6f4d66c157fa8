import Mathlib.Data.List.Forall2
import Patchbay.Proofs.Atom.Grammar

/-!
# A line of atoms read back

Each atom is one token of its line, and a token is read alike whatever stands behind the space after
it: a bare word ends at that space, and in a quoted symbol the first quote without a backslash closes
it. So a line gives its atoms back one by one. Only a double may come back as another number, the
integer or the double that its numeral stands for.
-/

namespace Patchbay.Words

open Text

/-- The characters that numbers are written with are no blanks. -/
theorem isBlank_of_mem_letters {c : Char} (h : c ∈ Numeral.letters) : isBlank c = false := by
  have hletters : Numeral.letters.all (fun c => !isBlank c) = true := by decide
  simpa using List.all_eq_true.mp hletters c h

/-- Nor are they quotes. -/
theorem ne_quote_of_mem_letters {c : Char} (h : c ∈ Numeral.letters) : c ≠ '"' := by
  have hletters : '"' ∉ Numeral.letters := by decide
  exact fun heq => hletters (heq ▸ h)

/-- An escaped text spells the text. -/
theorem unescapes_escape (text : List Char) : Unescapes (escape plainCode text) text := by
  induction text with
  | nil => exact .done
  | cons c text ih =>
    by_cases hcode : c = '"' ∨ c = '\\'
    · have hescape : escape plainCode (c :: text) = '\\' :: c :: escape plainCode text := by
        rcases hcode with rfl | rfl <;> rfl
      exact hescape ▸ .escaped hcode ih
    · obtain ⟨hquote, hslash⟩ := not_or.mp hcode
      have hescape : escape plainCode (c :: text) = c :: escape plainCode text := by
        simp [escape, plainCode, hquote, hslash]
      exact hescape ▸ .plain hquote hslash ih

/-- A quoted symbol is read whatever stands behind it. -/
theorem read_quote (text rest : List Char) :
    read (quote plainCode text ++ rest) = .symbol (String.ofList text) :: read rest := by
  refine read_quoted (quoted?_eq_some_iff.mpr ⟨escape plainCode text, ?_, unescapes_escape text⟩)
  simp [quote]

/-- A word without blanks and without a quote in front is read up to the next blank. -/
theorem read_unquoted {word rest : List Char} (hword : word ≠ []) (hquote : word.head? ≠ some '"')
    (hblank : ∀ c ∈ word, isBlank c = false) (hrest : ∀ c ∈ rest.head?, isBlank c = true) :
    read (word ++ rest) = ofWord word :: read rest := by
  refine read_bare hword ?_ hblank hrest
  obtain ⟨c, word, rfl⟩ := List.exists_cons_of_ne_nil hword
  exact if_neg (by simpa using hquote)

/-- A word that stands for a symbol is its text. -/
theorem eq_of_ofWord_eq_symbol {word : List Char} {text : String}
    (h : ofWord word = .symbol text) : text.toList = word := by
  unfold ofWord at h
  split at h
  · split at h
    · cases h
    · split at h <;> cases h
  · rw [← Atom.symbol.inj h, String.toList_ofList]

/-- A quoted symbol is no longer than what it is read from. -/
theorem length_le_of_closeQuote? {text : List Char} {found : List Char × List Char}
    (h : closeQuote? text = some found) : found.1.length ≤ text.length := by
  fun_induction closeQuote? text generalizing found with
  | case1 => cases h
  | case2 rest =>
    obtain rfl := Option.some.inj h
    exact Nat.zero_le _
  | case3 rest ih | case4 rest ih | case5 c rest _ _ _ ih =>
    obtain ⟨inner, hinner, rfl⟩ := Option.map_eq_some_iff.1 h
    have hshort := ih hinner
    simp only [List.length_cons]
    omega

/-- No symbol of a line is longer than the line. -/
theorem length_le_of_symbol_mem_read {line : List Char} {text : String}
    (h : Atom.symbol text ∈ read line) : text.toList.length ≤ line.length := by
  fun_induction read line with
  | case1 => cases h
  | case2 c rest _ ih => exact (ih h).trans (Nat.le_succ _)
  | case3 c rest _ symbol after hquoted ih =>
    have hafter := length_of_quoted? hquoted
    rcases List.mem_cons.mp h with hsymbol | hmem
    · obtain rfl := Atom.symbol.inj hsymbol
      rw [String.toList_ofList]
      by_cases hc : c = '"'
      · rw [quoted?, if_pos hc] at hquoted
        exact (length_le_of_closeQuote? hquoted).trans (Nat.le_succ _)
      · rw [quoted?, if_neg hc] at hquoted
        cases hquoted
    · exact (ih hmem).trans hafter.le
  | case4 c rest _ _ ih =>
    rcases List.mem_cons.mp h with hsymbol | hmem
    · rw [eq_of_ofWord_eq_symbol hsymbol.symm, List.length_cons, List.length_cons]
      exact Nat.succ_le_succ (List.takeWhile_prefix _).length_le
    · exact (ih hmem).trans ((List.dropWhile_suffix _).length_le.trans (Nat.le_succ _))

/-- A symbol written bare is a word without blanks and without a quote in front, and stands for
itself. -/
theorem bare_of_isBare {text : String} (h : isBare text = true) :
    text.toList ≠ [] ∧ text.toList.head? ≠ some '"' ∧
      (∀ c ∈ text.toList, isBlank c = false) ∧ ofWord text.toList = .symbol text := by
  simp only [isBare, Bool.and_eq_true, bne_iff_ne] at h
  obtain ⟨hquote, hread⟩ := h
  split at hread
  · next found hfound =>
    obtain rfl := beq_iff_eq.mp hread
    have hmem : ∀ {line : List Char}, read line = [.symbol found] →
        found.toList.length ≤ line.length := fun hline =>
      length_le_of_symbol_mem_read (hline ▸ List.mem_singleton_self _)
    generalize hline : found.toList = line at *
    cases line with
    | nil =>
      rw [read] at hfound
      cases hfound
    | cons c rest =>
      have hblank : isBlank c = false := by
        -- A blank in front would leave too little for the symbol.
        by_contra hblank
        rw [read_blank (by simpa using hblank)] at hfound
        have hshort := hmem hfound
        simp only [List.length_cons] at hshort
        omega
      have hc : c ≠ '"' := by simpa using hquote
      have hnone : quoted? (c :: rest) = none := if_neg hc
      have hfirst : ofWord (c :: rest.takeWhile (!isBlank ·)) = .symbol found := by
        rw [read, hblank] at hfound
        simp only [Bool.false_eq_true, if_false] at hfound
        split at hfound
        · next hsome =>
          rw [hnone] at hsome
          cases hsome
        · exact (List.cons.inj hfound).1
      have htake : c :: rest.takeWhile (!isBlank ·) = c :: rest := by
        rw [← eq_of_ofWord_eq_symbol hfirst, hline]
      refine ⟨List.cons_ne_nil c rest, hquote, ?_, htake ▸ hfirst⟩
      intro d hd
      rcases List.mem_cons.mp hd with rfl | hd
      · exact hblank
      · simpa using List.takeWhile_eq_self_iff.mp (List.cons.inj htake).2 d hd
  · cases hread

/-- The digits of a number behind an optional minus sign are a numeral without a point. -/
theorem isNumeral_signed_nat (n : Nat) (minus : Bool) :
    isNumeral (Numeral.signed minus (Numeral.nat n)) = true ∧
      (Numeral.signed minus (Numeral.nat n)).contains '.' = false :=
  IsInteger.isNumeral ⟨minus, Numeral.nat n, Numeral.digits_nat n, rfl⟩

/-- A magnitude behind an optional minus sign is a numeral. -/
theorem isNumeral_magnitude {magnitude : List Char} (h : Numeral.Magnitude magnitude)
    (minus : Bool) : isNumeral (Numeral.signed minus magnitude) = true := by
  cases h with
  | whole _ => exact (isNumeral_signed_nat _ minus).1
  | @pointed whole fraction hwhole _ hdigits =>
    have hsome : whole ++ fraction ≠ [] := List.append_ne_nil_of_left_ne_nil hwhole _
    exact (IsDecimal.isNumeral ⟨minus, whole, fraction, ⟨hsome, hdigits⟩, rfl⟩).1

/-- An integer is read back from its text. -/
theorem ofWord_int (n : Int64) : ofWord (Numeral.int n.toInt) = .long n := by
  obtain ⟨hnumeral, hpoint⟩ := isNumeral_signed_nat n.toInt.natAbs (n.toInt < 0)
  rw [← Numeral.int_eq_signed] at hnumeral hpoint
  simp only [ofWord, hnumeral, hpoint, if_true, Bool.false_eq_true, if_false, Numeral.readLong?_int]

/-- A finite double comes back as it is, or as an integer of its value. -/
theorem ofWord_atomDouble {x : Float} (hfinite : x.isFinite = true) (hback : Numeral.ReadsBack x) :
    ofWord (Numeral.atomDouble x) = .double x ∨
      ∃ n : Int64, ofWord (Numeral.atomDouble x) = .long n ∧ Long.toDouble n = x := by
  obtain ⟨value, hvalue⟩ := Double.exists_of_isFinite hfinite
  obtain ⟨magnitude, hmagnitude, htext⟩ := Numeral.atomDouble_finite hvalue
  have hnumeral : isNumeral (Numeral.atomDouble x) = true :=
    htext ▸ isNumeral_magnitude hmagnitude value.negative
  have hdouble : (Numeral.readDouble? (Numeral.atomDouble x)).getD 0.0 = x := by
    rw [show Numeral.readDouble? _ = some x from hback, Option.getD_some]
  simp only [ofWord, hnumeral, hdouble, if_true]
  split
  · exact Or.inl rfl
  split
  · next n hn => exact Or.inr ⟨n, rfl, (Numeral.eq_of_readLong?_atomDouble hback hn).2⟩
  · exact Or.inl rfl

/-- A finite double comes back as a number equal to it. -/
theorem same_ofWord_atomDouble {x : Float} (hfinite : x.isFinite = true)
    (hback : Numeral.ReadsBack x) (minus : Bool) :
    Atom.same (ofWord (Numeral.atomDouble x)) (.double x minus) = true := by
  have hself : (x == x) = true := Double.beq_self (Double.isNaN_of_isFinite hfinite)
  rcases ofWord_atomDouble hfinite hback with hdouble | ⟨n, hlong, hvalue⟩
  · simpa [hdouble, Atom.same, Atom.isNumber, Atom.toDouble] using hself
  · simpa [hlong, Atom.same, Atom.isNumber, Atom.toDouble, hvalue] using hself

/-- The atoms that are written as one token each. -/
inductive Token : Atom → Prop
  | long (n : Int64) : Token (.long n)
  | double (x : Float) (minus : Bool) : Token (.double x minus)
  | symbol (text : String) : Token (.symbol text)

/-- An atom as a line gives it back. -/
def reread : Atom → Atom
  | .double x _ => ofWord (Numeral.atomDouble x)
  | .long n => .long n
  | .symbol text => .symbol text
  | _ => .undefined

/-- A token is read whatever stands behind the blank after it. -/
theorem read_word {atom : Atom} (h : Token atom) {rest : List Char}
    (hrest : ∀ c ∈ rest.head?, isBlank c = true) :
    read (word atom ++ rest) = reread atom :: read rest := by
  have hnumeral : ∀ {letters : List Char}, letters ≠ [] → (∀ c ∈ letters, c ∈ Numeral.letters) →
      read (letters ++ rest) = ofWord letters :: read rest := by
    intro letters hne hletters
    refine read_unquoted hne ?_ (fun c hc => isBlank_of_mem_letters (hletters c hc)) hrest
    intro hhead
    exact ne_quote_of_mem_letters (hletters _ (List.mem_of_head? hhead)) rfl
  cases h with
  | long n =>
    rw [word, hnumeral (Numeral.int_ne_nil _) fun c => Numeral.mem_letters_of_mem_int, ofWord_int,
      reread]
  | double x minus =>
    rw [word, hnumeral (Numeral.atomDouble_ne_nil x) fun c => Numeral.mem_letters_of_mem_atomDouble,
      reread]
  | symbol text =>
    rw [word, symbol, reread]
    split
    · next hbare =>
      obtain ⟨hne, hquote, hblank, hword⟩ := bare_of_isBare hbare
      rw [read_unquoted hne hquote hblank hrest, hword]
    · rw [read_quote, String.ofList_toList]

/-- The atoms of a line are read back one by one. -/
theorem read_write {atoms : List Atom} (h : ∀ atom ∈ atoms, Token atom) :
    read (write atoms) = atoms.map reread := by
  induction atoms with
  | nil => simp [write, words, read]
  | cons atom atoms ih =>
    have hatom := h atom List.mem_cons_self
    have hatoms := ih fun atom hmem => h atom (List.mem_cons_of_mem _ hmem)
    cases atoms with
    | nil =>
      have hend : read (word atom ++ []) = reread atom :: read [] := read_word hatom (by simp)
      simpa [write, words, List.intercalate_singleton, read] using hend
    | cons next atoms =>
      have hwrite : write (atom :: next :: atoms) = word atom ++ ' ' :: write (next :: atoms) := by
        simp [write, words, List.intercalate_cons_cons]
      have hspace : isBlank ' ' = true := by decide
      rw [hwrite, read_word hatom (by simp [hspace]), read_blank hspace, hatoms]
      rfl

/-- Every atom read of a line is a token. -/
theorem token_of_mem_read {line : List Char} {atom : Atom} (h : atom ∈ read line) : Token atom := by
  have hword : ∀ word : List Char, Token (ofWord word) := by
    intro word
    unfold ofWord
    split
    · split
      · exact .double _ false
      · split
        · exact .long _
        · exact .double _ false
    · exact .symbol _
  fun_induction read line with
  | case1 => cases h
  | case2 c rest _ ih => exact ih h
  | case3 c rest _ symbol after hquoted ih =>
    rcases List.mem_cons.mp h with rfl | hmem
    · exact .symbol _
    · exact ih hmem
  | case4 c rest _ _ ih =>
    rcases List.mem_cons.mp h with rfl | hmem
    · exact hword _
    · exact ih hmem

/-- A token that has been read back is written as before. A double whose numeral is no number on a line
comes back as a symbol of that text. -/
theorem word_reread {atom : Atom} (h : Token atom)
    (hback : ∀ x minus, atom = .double x minus → Numeral.ReadsBack x) :
    word (reread atom) = word atom := by
  cases h with
  | long | symbol => rfl
  | double x minus =>
    have hx := hback x minus rfl
    have hdouble : (Numeral.readDouble? (Numeral.atomDouble x)).getD 0.0 = x := by
      rw [show Numeral.readDouble? _ = some x from hx, Option.getD_some]
    have hletters : ∀ c ∈ Numeral.atomDouble x, c ∈ Numeral.letters := fun c =>
      Numeral.mem_letters_of_mem_atomDouble
    rw [reread, word]
    by_cases hnumeral : isNumeral (Numeral.atomDouble x) = true
    · simp only [ofWord, hnumeral, if_true, hdouble]
      split
      · rw [word]
      split
      · next n hn => rw [word, (Numeral.eq_of_readLong?_atomDouble hx hn).1]
      · rw [word]
    · have hsymbol : ofWord (Numeral.atomDouble x) = .symbol (String.ofList (Numeral.atomDouble x)) :=
        if_neg hnumeral
      have hquote : (Numeral.atomDouble x).head? ≠ some '"' := fun hhead =>
        ne_quote_of_mem_letters (hletters _ (List.mem_of_head? hhead)) rfl
      have hread : read (Numeral.atomDouble x ++ []) = ofWord (Numeral.atomDouble x) :: read [] :=
        read_unquoted (Numeral.atomDouble_ne_nil x) hquote
          (fun c hc => isBlank_of_mem_letters (hletters c hc)) (by simp)
      rw [List.append_nil, hsymbol, read] at hread
      have hbare : isBare (String.ofList (Numeral.atomDouble x)) = true := by
        simp [isBare, String.toList_ofList, hread, hquote]
      rw [hsymbol, word, symbol, if_pos hbare, String.toList_ofList]

/-- The texts of several atoms are the texts of each. -/
theorem words_eq_map (atoms : List Atom) : words atoms = atoms.map word := by
  induction atoms with
  | nil => rfl
  | cons atom atoms ih => rw [words, ih, List.map_cons]

/-- A line that has been read back is written as before. -/
theorem write_map_reread {atoms : List Atom} (h : ∀ atom ∈ atoms, Token atom)
    (hback : ∀ atom ∈ atoms, ∀ x minus, atom = .double x minus → Numeral.ReadsBack x) :
    write (atoms.map reread) = write atoms := by
  rw [write, write, words_eq_map, words_eq_map, List.map_map]
  congr 1
  exact List.map_congr_left fun atom hatom => word_reread (h atom hatom) (hback atom hatom)

/-- The atoms whose line holds all of them: integers, symbols, and finite doubles that are read back
from their texts. -/
inductive Storable : Atom → Prop
  | long (n : Int64) : Storable (.long n)
  | double (x : Float) (minus : Bool) (hfinite : x.isFinite = true) (hback : Numeral.ReadsBack x) :
    Storable (.double x minus)
  | symbol (text : String) : Storable (.symbol text)

/-- Every such atom is one token. -/
theorem Storable.token {atom : Atom} (h : Storable atom) : Token atom := by
  cases h with
  | long n => exact .long n
  | double x minus => exact .double x minus
  | symbol text => exact .symbol text

/-- How an atom comes back: equal in value, and a symbol or an integer as it was. -/
structure Returns (found original : Atom) : Prop where
  same : Atom.same found original = true
  symbol : ∀ text, original = .symbol text → found = .symbol text
  long : ∀ n, original = .long n → found = .long n

/-- So comes back each atom that its token holds. -/
theorem Storable.returns {atom : Atom} (h : Storable atom) : Returns (reread atom) atom := by
  cases h with
  | long n => exact ⟨by simp [reread, Atom.same], by simp, fun _ h => h⟩
  | double x minus hfinite hback =>
    exact ⟨same_ofWord_atomDouble hfinite hback minus, by simp, by simp⟩
  | symbol text => exact ⟨by simp [reread, Atom.same], fun _ h => h, by simp⟩

/-- A line of integers, symbols and finite doubles is read back as as many atoms, each equal to the
one written, with every symbol and every integer as it was. -/
theorem read_write_returns {atoms : List Atom} (h : ∀ atom ∈ atoms, Storable atom) :
    (read (write atoms)).length = atoms.length ∧
      List.Forall₂ Returns (read (write atoms)) atoms := by
  rw [read_write fun atom hatom => (h atom hatom).token]
  refine ⟨List.length_map _, ?_⟩
  rw [List.forall₂_map_left_iff, List.forall₂_same]
  exact fun atom hatom => (h atom hatom).returns

/-- A line with symbols that have to be quoted and a double whose numeral has no point. -/
theorem read_write_returns_mixed :
    (read (write [.symbol "say \"hi\"\\", .double 440.5, .symbol "12", .symbol "",
      .double 1e15, .long (-7)])).length = 6 ∧
      List.Forall₂ Returns (read (write [.symbol "say \"hi\"\\", .double 440.5, .symbol "12",
        .symbol "", .double 1e15, .long (-7)])) [.symbol "say \"hi\"\\", .double 440.5,
        .symbol "12", .symbol "", .double 1e15, .long (-7)] := by
  refine read_write_returns fun atom hatom => ?_
  simp only [List.mem_cons, List.not_mem_nil, or_false] at hatom
  rcases hatom with rfl | rfl | rfl | rfl | rfl | rfl
  · exact .symbol _
  · exact .double _ _ (by decide +kernel) (by decide +kernel)
  · exact .symbol _
  · exact .symbol _
  · exact .double _ _ (by decide +kernel) (by decide +kernel)
  · exact .long _

end Patchbay.Words
