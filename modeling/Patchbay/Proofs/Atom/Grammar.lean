import Patchbay.Atom.Words
import Patchbay.Proofs.Number.Doubles

/-!
# The grammar of a line of atoms

What a line of atoms is, said without a reader: blanks, quoted symbols, and bare words that reach as far
as they can. A bare word is an integer, a decimal, or else a symbol. Every line has one reading, and that
is what the reader finds.
-/

namespace Patchbay.Words

open Text Numeral

/-! ### Bare words -/

/-- A word of digits, behind a minus sign or not. -/
def IsInteger (word : List Char) : Prop := ∃ minus digits, Digits digits ∧ word = signed minus digits

/-- A word of digits with a point before, among or behind them, behind a minus sign or not. -/
def IsDecimal (word : List Char) : Prop :=
  ∃ minus whole fraction, Digits (whole ++ fraction) ∧ word = signed minus (whole ++ '.' :: fraction)

/-- What a bare word stands for: an integer that fits in 64 bits for itself, a larger one and a decimal
for the double nearest to it, and any other word for a symbol. -/
inductive Denotes : List Char → Atom → Prop
  | long {minus : Bool} {digits : List Char} {value : Int64} (hdigits : Digits digits)
    (hvalue : value.toInt = if minus then -(natValue digits : Int) else natValue digits) :
    Denotes (signed minus digits) (.long value)
  | large {minus : Bool} {digits : List Char} (hdigits : Digits digits)
    (hlarge : ∀ value : Int64, value.toInt ≠ if minus then -(natValue digits : Int) else natValue digits) :
    Denotes (signed minus digits)
      (.double (if minus then -nearestDouble (natValue digits) 0 else nearestDouble (natValue digits) 0))
  | decimal {minus : Bool} {whole fraction : List Char} (hdigits : Digits (whole ++ fraction)) :
    Denotes (signed minus (whole ++ '.' :: fraction))
      (.double (if minus then -nearestDouble (natValue (whole ++ fraction)) (-(fraction.length : Int))
        else nearestDouble (natValue (whole ++ fraction)) (-(fraction.length : Int))))
  | symbol {word : List Char} (hinteger : ¬IsInteger word) (hdecimal : ¬IsDecimal word) :
    Denotes word (.symbol (String.ofList word))

/-- Behind an optional minus sign a numeral has digits, at most one point, and nothing else. -/
theorem isNumeral_signed_iff {minus : Bool} {body : List Char} (h : minus = true ∨ body.head? ≠ some '-') :
    isNumeral (signed minus body) = true ↔
      (∀ c ∈ body, isDigit c = true ∨ c = '.') ∧ (∃ c ∈ body, isDigit c = true) ∧ body.count '.' ≤ 1 := by
  have hbody : isNumeral (signed minus body) =
      (body.all (fun c => isDigit c || c == '.') && body.any isDigit && decide (body.count '.' ≤ 1)) := by
    cases minus with
    | true => rfl
    | false =>
      unfold isNumeral signed
      simp only [Bool.false_eq_true, if_false]
      split
      · exact absurd rfl (h.resolve_left Bool.false_ne_true)
      · rfl
  simp [hbody, and_assoc]

/-- No digit is a point. -/
theorem ne_point_of_isDigit {c : Char} (h : isDigit c = true) : c ≠ '.' := by
  rintro rfl
  exact absurd h (by decide)

/-- There is no point among digits. -/
theorem point_notMem {digits : List Char} (h : ∀ c ∈ digits, isDigit c = true) : '.' ∉ digits :=
  fun hmem => ne_point_of_isDigit (h _ hmem) rfl

/-- Digits have no minus sign in front, with a point somewhere or without. -/
theorem head?_ne_minus {body : List Char} (h : ∀ c ∈ body, isDigit c = true ∨ c = '.') :
    body.head? ≠ some '-' := by
  intro hhead
  rcases h _ (List.mem_of_head? hhead) with hdigit | hpoint
  · exact (ne_sign_of_isDigit hdigit).1 rfl
  · exact absurd hpoint (by decide)

/-- An integer is a numeral without a point. -/
theorem IsInteger.isNumeral {word : List Char} (h : IsInteger word) :
    isNumeral word = true ∧ word.contains '.' = false := by
  obtain ⟨minus, digits, ⟨hsome, hall⟩, rfl⟩ := h
  have hbody : ∀ c ∈ digits, isDigit c = true ∨ c = '.' := fun c hc => Or.inl (hall c hc)
  have hpoint := point_notMem hall
  obtain ⟨c, hc⟩ := List.exists_mem_of_ne_nil digits hsome
  constructor
  · rw [isNumeral_signed_iff (Or.inr (head?_ne_minus hbody)), List.count_eq_zero.mpr hpoint]
    exact ⟨hbody, ⟨c, hc, hall c hc⟩, Nat.zero_le 1⟩
  · cases minus <;> simpa [signed] using hpoint

/-- A decimal is a numeral with a point. -/
theorem IsDecimal.isNumeral {word : List Char} (h : IsDecimal word) :
    isNumeral word = true ∧ word.contains '.' = true := by
  obtain ⟨minus, whole, fraction, ⟨hsome, hall⟩, rfl⟩ := h
  have hbody : ∀ c ∈ whole ++ '.' :: fraction, isDigit c = true ∨ c = '.' := by
    intro c hc
    rcases List.mem_append.mp hc with hwhole | hrest
    · exact Or.inl (hall c (List.mem_append_left _ hwhole))
    rcases List.mem_cons.mp hrest with hpoint | hfraction
    · exact Or.inr hpoint
    · exact Or.inl (hall c (List.mem_append_right _ hfraction))
  obtain ⟨c, hc⟩ := List.exists_mem_of_ne_nil _ hsome
  constructor
  · rw [isNumeral_signed_iff (Or.inr (head?_ne_minus hbody))]
    refine ⟨hbody, ⟨c, ?_, hall c hc⟩, ?_⟩
    · exact List.mem_append.mpr ((List.mem_append.mp hc).imp_right (List.mem_cons_of_mem _))
    · have hnone := List.count_eq_zero.mpr (point_notMem hall)
      rw [List.count_append] at hnone ⊢
      rw [List.count_cons_self]
      omega
  · cases minus <;> simp [signed]

/-- Every word has a body behind an optional minus sign. -/
theorem exists_signed (word : List Char) :
    ∃ minus body, word = signed minus body ∧ (minus = true ∨ body.head? ≠ some '-') := by
  by_cases hminus : word.head? = some '-'
  · obtain ⟨rest, rfl⟩ := List.head?_eq_some_iff.mp hminus
    exact ⟨true, rest, rfl, Or.inl rfl⟩
  · exact ⟨false, word, rfl, Or.inr hminus⟩

/-- Every numeral is an integer or a decimal. -/
theorem integer_or_decimal {word : List Char} (h : isNumeral word = true) :
    IsInteger word ∨ IsDecimal word := by
  obtain ⟨minus, body, rfl, hbody⟩ := exists_signed word
  obtain ⟨hall, ⟨c, hc, hdigit⟩, hcount⟩ := (isNumeral_signed_iff hbody).mp h
  by_cases hpoint : '.' ∈ body
  · obtain ⟨whole, fraction, rfl⟩ := List.append_of_mem hpoint
    rw [List.count_append, List.count_cons_self] at hcount
    have hnone : '.' ∉ whole ++ fraction := by
      rw [← List.count_eq_zero, List.count_append]
      omega
    have hmem : ∀ {d}, d ∈ whole ++ fraction → d ∈ whole ++ '.' :: fraction := fun hd =>
      List.mem_append.mpr ((List.mem_append.mp hd).imp_right (List.mem_cons_of_mem _))
    refine Or.inr ⟨minus, whole, fraction, ⟨List.ne_nil_of_mem (a := c) ?_, fun d hd => ?_⟩, rfl⟩
    · simpa [ne_point_of_isDigit hdigit] using hc
    · exact (hall d (hmem hd)).resolve_right fun heq => hnone (heq ▸ hd)
  · refine Or.inl ⟨minus, body, ⟨List.ne_nil_of_mem hc, fun d hd => ?_⟩, rfl⟩
    exact (hall d hd).resolve_right fun heq => hpoint (heq ▸ hd)

/-- An integer is read as itself if it fits, and else as a double. -/
theorem ofWord_signed {digits : List Char} (h : Digits digits) (minus : Bool) :
    ofWord (signed minus digits) =
      match Long.ofInt? (if minus then -(natValue digits : Int) else natValue digits) with
      | some value => .long value
      | none => .double
          (if minus then -nearestDouble (natValue digits) 0 else nearestDouble (natValue digits) 0) := by
  obtain ⟨hnumeral, hpoint⟩ := IsInteger.isNumeral ⟨minus, digits, h, rfl⟩
  cases hvalue : Long.ofInt? (if minus then -(natValue digits : Int) else natValue digits) <;>
    simp only [ofWord, hnumeral, hpoint, h.readLong?_signed, hvalue, h.readDouble?_signed, if_true,
      Bool.false_eq_true, if_false, Option.getD_some]

/-- A decimal is read as a double. -/
theorem ofWord_pointed {whole fraction : List Char} (h : Digits (whole ++ fraction)) (minus : Bool) :
    ofWord (signed minus (whole ++ '.' :: fraction)) =
      .double (if minus then -nearestDouble (natValue (whole ++ fraction)) (-(fraction.length : Int))
        else nearestDouble (natValue (whole ++ fraction)) (-(fraction.length : Int))) := by
  obtain ⟨hnumeral, hpoint⟩ := IsDecimal.isNumeral ⟨minus, whole, fraction, h, rfl⟩
  simp only [ofWord, hnumeral, hpoint, readDouble?_signed_pointed h, if_true, Option.getD_some]

/-- A bare word is read as what it stands for, and as nothing else. -/
theorem ofWord_eq_iff {word : List Char} {atom : Atom} : ofWord word = atom ↔ Denotes word atom := by
  constructor
  · rintro rfl
    by_cases hnumeral : isNumeral word = true
    · rcases integer_or_decimal hnumeral with ⟨minus, digits, hdigits, rfl⟩ | hdecimal
      · rw [ofWord_signed hdigits]
        split
        · next value hvalue => exact .long hdigits (ofInt?_eq_some_iff.mp hvalue)
        · next hnone =>
          refine .large hdigits fun value hvalue => ?_
          rw [ofInt?_eq_some_iff.mpr hvalue] at hnone
          cases hnone
      · obtain ⟨minus, whole, fraction, hdigits, rfl⟩ := hdecimal
        rw [ofWord_pointed hdigits]
        exact .decimal hdigits
    · rw [ofWord, if_neg hnumeral]
      exact .symbol (fun h => hnumeral h.isNumeral.1) fun h => hnumeral h.isNumeral.1
  · intro h
    cases h with
    | @long minus digits value hdigits hvalue =>
      rw [ofWord_signed hdigits, ofInt?_eq_some_iff.mpr hvalue]
    | @large minus digits hdigits hlarge =>
      have hnone : Long.ofInt? (if minus then -(natValue digits : Int) else natValue digits) = none :=
        Option.eq_none_iff_forall_ne_some.mpr fun value hvalue =>
          hlarge value (ofInt?_eq_some_iff.mp hvalue)
      rw [ofWord_signed hdigits, hnone]
    | decimal hdigits => exact ofWord_pointed hdigits _
    | symbol hinteger hdecimal =>
      have hother : isNumeral word ≠ true := fun hnumeral =>
        (integer_or_decimal hnumeral).elim hinteger hdecimal
      rw [ofWord, if_neg hother]

/-! ### Quoted symbols -/

/-- The run of characters between two quotes, and the symbol that it spells: a backslash in front of a
quote or a backslash makes this part of the symbol, and any other backslash is part of it as well. -/
inductive Unescapes : List Char → List Char → Prop
  | done : Unescapes [] []
  | escaped {c : Char} {run symbol : List Char} (hc : c = '"' ∨ c = '\\') (h : Unescapes run symbol) :
    Unescapes ('\\' :: c :: run) (c :: symbol)
  | plain {c : Char} {run symbol : List Char} (hquote : c ≠ '"') (hslash : c ≠ '\\')
    (h : Unescapes run symbol) : Unescapes (c :: run) (c :: symbol)
  | backslash {c : Char} {run symbol : List Char} (hquote : c ≠ '"') (hslash : c ≠ '\\')
    (h : Unescapes (c :: run) symbol) : Unescapes ('\\' :: c :: run) ('\\' :: symbol)

/-- A quoted symbol ends at the first quote that no backslash makes part of it. -/
theorem closeQuote?_eq_some_iff {text symbol rest : List Char} :
    closeQuote? text = some (symbol, rest) ↔ ∃ run, text = run ++ '"' :: rest ∧ Unescapes run symbol := by
  constructor
  · intro h
    fun_induction closeQuote? text generalizing symbol rest with
    | case1 => cases h
    | case2 after =>
      obtain ⟨rfl, rfl⟩ := Prod.mk.inj (Option.some.inj h)
      exact ⟨[], rfl, .done⟩
    | case3 after ih =>
      obtain ⟨⟨inner, rest⟩, hinner, hfound⟩ := Option.map_eq_some_iff.mp h
      obtain ⟨rfl, rfl⟩ := Prod.mk.inj hfound
      obtain ⟨run, rfl, hrun⟩ := ih hinner
      exact ⟨'\\' :: '"' :: run, rfl, .escaped (Or.inl rfl) hrun⟩
    | case4 after ih =>
      obtain ⟨⟨inner, rest⟩, hinner, hfound⟩ := Option.map_eq_some_iff.mp h
      obtain ⟨rfl, rfl⟩ := Prod.mk.inj hfound
      obtain ⟨run, rfl, hrun⟩ := ih hinner
      exact ⟨'\\' :: '\\' :: run, rfl, .escaped (Or.inr rfl) hrun⟩
    | case5 c after hquote hescaped hdouble ih =>
      obtain ⟨⟨inner, rest⟩, hinner, hfound⟩ := Option.map_eq_some_iff.mp h
      obtain ⟨rfl, rfl⟩ := Prod.mk.inj hfound
      obtain ⟨run, rfl, hrun⟩ := ih hinner
      refine ⟨c :: run, rfl, ?_⟩
      -- A backslash is not the last of the run: it would make the closing quote part of it.
      by_cases hslash : c = '\\'
      · subst hslash
        cases run with
        | nil => exact absurd rfl (hescaped rest rfl)
        | cons d run =>
          refine .backslash ?_ ?_ hrun
          · rintro rfl
            exact hescaped _ rfl rfl
          · rintro rfl
            exact hdouble _ rfl rfl
      · exact .plain hquote hslash hrun
  · rintro ⟨run, rfl, hrun⟩
    induction hrun with
    | done => rfl
    | escaped hc h ih => rcases hc with rfl | rfl <;> simp [closeQuote?, ih]
    | plain hquote hslash h ih => simp [closeQuote?, hslash, ih]
    | backslash hquote hslash h ih =>
      rw [List.cons_append] at ih
      simp [closeQuote?, hquote, hslash, ih]

/-- A quote with a closing quote opens a text: between them is the run of a symbol, and the rest of the
text comes behind. -/
def Opens (text run symbol rest : List Char) : Prop :=
  text = '"' :: (run ++ '"' :: rest) ∧ Unescapes run symbol

/-- A quoted symbol is read where a quote with a closing quote opens the text. -/
theorem quoted?_eq_some_iff {text symbol rest : List Char} :
    quoted? text = some (symbol, rest) ↔ ∃ run, Opens text run symbol rest := by
  cases text with
  | nil => simp [quoted?, Opens]
  | cons c text =>
    by_cases hc : c = '"'
    · rw [quoted?, if_pos hc, closeQuote?_eq_some_iff]
      simp [Opens, hc]
    · simp [quoted?, Opens, hc]

/-- No quoted symbol is read where no such quote does. -/
theorem quoted?_eq_none_iff {text : List Char} :
    quoted? text = none ↔ ¬∃ run symbol rest, Opens text run symbol rest := by
  rw [Option.eq_none_iff_forall_ne_some]
  constructor
  · rintro hnone ⟨run, symbol, rest, hopens⟩
    exact hnone _ (quoted?_eq_some_iff.mpr ⟨run, hopens⟩)
  · rintro hnone ⟨symbol, rest⟩ hsome
    obtain ⟨run, hopens⟩ := quoted?_eq_some_iff.mp hsome
    exact hnone ⟨run, symbol, rest, hopens⟩

/-! ### Lines -/

/-- The atoms of a line. -/
inductive Reads : List Char → List Atom → Prop
  | done : Reads [] []
  | blank {c : Char} {rest : List Char} {atoms : List Atom} (hblank : isBlank c = true)
    (h : Reads rest atoms) : Reads (c :: rest) atoms
  | quoted {text run symbol rest : List Char} {atoms : List Atom} (hopens : Opens text run symbol rest)
    (h : Reads rest atoms) : Reads text (.symbol (String.ofList symbol) :: atoms)
  | bare {word rest : List Char} {atom : Atom} {atoms : List Atom} (hword : word ≠ [])
    (hblank : ∀ c ∈ word, isBlank c = false) (hrest : ∀ c ∈ rest.head?, isBlank c = true)
    (hopens : ¬∃ run symbol rest', Opens (word ++ rest) run symbol rest') (hatom : Denotes word atom)
    (h : Reads rest atoms) : Reads (word ++ rest) (atom :: atoms)

/-- A blank is skipped. -/
theorem read_blank {c : Char} (h : isBlank c = true) (rest : List Char) :
    read (c :: rest) = read rest := by
  rw [read, if_pos h]

/-- No quote is a blank. -/
theorem isBlank_quote : isBlank '"' = false := by decide

/-- A quoted symbol is read up to its closing quote. -/
theorem read_quoted {text symbol rest : List Char} (h : quoted? text = some (symbol, rest)) :
    read text = .symbol (String.ofList symbol) :: read rest := by
  obtain ⟨run, rfl, -⟩ := quoted?_eq_some_iff.mp h
  rw [read, isBlank_quote]
  simp only [Bool.false_eq_true, if_false]
  split
  · next found hfound =>
    obtain ⟨rfl, rfl⟩ := Prod.mk.inj (Option.some.inj (h.symm.trans hfound))
    rfl
  · next hnone => rw [h] at hnone; cases hnone

/-- A bare word is read up to the next blank. -/
theorem read_bare {word rest : List Char} (hword : word ≠ []) (hquote : quoted? (word ++ rest) = none)
    (hblank : ∀ c ∈ word, isBlank c = false) (hrest : ∀ c ∈ rest.head?, isBlank c = true) :
    read (word ++ rest) = ofWord word :: read rest := by
  obtain ⟨c, word, rfl⟩ := List.exists_cons_of_ne_nil hword
  have hinside : ∀ d ∈ word, (!isBlank d) = true := fun d hd => by
    rw [hblank d (List.mem_cons_of_mem c hd)]
    rfl
  have htake : rest.takeWhile (!isBlank ·) = [] := by
    cases rest with
    | nil => rfl
    | cons d rest => simp [hrest d rfl]
  have hdrop : rest.dropWhile (!isBlank ·) = rest := by
    cases rest with
    | nil => rfl
    | cons d rest => simp [hrest d rfl]
  rw [List.cons_append] at hquote ⊢
  rw [read, hblank c List.mem_cons_self]
  simp only [Bool.false_eq_true, if_false]
  split
  · next hfound => rw [hquote] at hfound; cases hfound
  · rw [List.takeWhile_append_of_pos hinside, htake, List.append_nil,
      List.dropWhile_append_of_pos hinside, hdrop]

/-- What is read of a line are its atoms. -/
theorem reads_read (text : List Char) : Reads text (read text) := by
  fun_induction read text with
  | case1 => exact .done
  | case2 c rest hblank ih => exact .blank hblank ih
  | case3 c rest hblank symbol after hquoted ih =>
    obtain ⟨run, hopens⟩ := quoted?_eq_some_iff.mp hquoted
    exact .quoted hopens ih
  | case4 c rest hblank hquoted ih =>
    let word := c :: rest.takeWhile (!isBlank ·)
    have hline : c :: rest = word ++ rest.dropWhile (!isBlank ·) := by
      rw [List.cons_append, List.takeWhile_append_dropWhile]
    have hinside : ∀ d ∈ word, isBlank d = false := by
      intro d hd
      rcases List.mem_cons.mp hd with rfl | hd
      · simpa using hblank
      · simpa using List.mem_takeWhile_imp hd
    have hbehind : ∀ d ∈ (rest.dropWhile (!isBlank ·)).head?, isBlank d = true := by
      intro d hd
      have hstops := List.head?_dropWhile_not (!isBlank ·) rest
      rw [Option.mem_def.mp hd] at hstops
      simpa using hstops
    rw [hline] at hquoted ⊢
    exact .bare (List.cons_ne_nil _ _) hinside hbehind (quoted?_eq_none_iff.mp hquoted)
      (ofWord_eq_iff.mp rfl) ih

/-- A line has the atoms that the grammar gives it, and they are what is read of it. -/
theorem read_eq_iff_reads (text : List Char) (atoms : List Atom) :
    read text = atoms ↔ Reads text atoms := by
  constructor
  · rintro rfl
    exact reads_read text
  · intro h
    induction h with
    | done => simp [read]
    | blank hblank _ ih => rw [read_blank hblank, ih]
    | quoted hopens _ ih => rw [read_quoted (quoted?_eq_some_iff.mpr ⟨_, hopens⟩), ih]
    | bare hword hblank hrest hopens hatom _ ih =>
      rw [read_bare hword (quoted?_eq_none_iff.mpr hopens) hblank hrest, ofWord_eq_iff.mpr hatom, ih]

end Patchbay.Words
