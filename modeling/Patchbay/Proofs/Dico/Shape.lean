import Patchbay.Dico.Reader
import Patchbay.Proofs.Atom.Parts
import Patchbay.Proofs.Number.Doubles
import Patchbay.Proofs.Text.Lines

/-!
# The shape of values on a line

Every value of the dico notation starts with a character that neither separates nor closes anything,
ends in one that is neither a blank nor a comma, and stays on its line. What else it holds does not
matter to the text around it.
-/

namespace Patchbay.Notation

open Text

/-- A text that stands for itself between blanks, commas and brackets. -/
structure Solid (text : List Char) : Prop where
  first : ∃ c rest, text = c :: rest ∧ inWord c = true
  last : ∃ front c, text = front ++ [c] ∧ isBlank c = false ∧ c ≠ ','
  oneLine : '\n' ∉ text

/-- What is in a word is no blank. -/
theorem isBlank_of_inWord {c : Char} (h : inWord c = true) : isBlank c = false := by
  simp only [inWord, Bool.and_eq_true, Bool.not_eq_true'] at h
  exact h.1.1.1

/-- What is in a word is no comma. -/
theorem ne_comma_of_inWord {c : Char} (h : inWord c = true) : c ≠ ',' := by
  rintro rfl
  exact absurd h (by decide)

/-- A word is solid. -/
theorem solid_word {word : List Char} (hne : word ≠ []) (h : ∀ c ∈ word, inWord c = true) :
    Solid word where
  first := by
    obtain ⟨c, rest, rfl⟩ := List.exists_cons_of_ne_nil hne
    exact ⟨c, rest, rfl, h c List.mem_cons_self⟩
  last := by
    obtain ⟨front, c, rfl⟩ := (List.eq_nil_or_concat' word).resolve_left hne
    have hc := h c (List.mem_append_right front List.mem_cons_self)
    exact ⟨front, c, rfl, isBlank_of_inWord hc, ne_comma_of_inWord hc⟩
  oneLine hmem := absurd (h '\n' hmem) (by decide)

/-- No newline is left in a text written with letters for its newlines. -/
theorem newline_notMem_escape (text : List Char) : '\n' ∉ escape lineCode text := by
  induction text with
  | nil => simp [escape]
  | cons c text ih =>
    by_cases hnewline : c = '\n'
    · simp [escape, lineCode, hnewline, ih]
    by_cases htab : c = '\t'
    · simp [escape, lineCode, htab, ih]
    by_cases hquote : c = '"'
    · simp [escape, lineCode, plainCode, hquote, ih]
    by_cases hslash : c = '\\'
    · simp [escape, lineCode, plainCode, hslash, ih]
    · simp [escape, lineCode, plainCode, hnewline, htab, hquote, hslash, Ne.symm hnewline, ih]

/-- A quoted text is solid. -/
theorem solid_quote (text : List Char) : Solid (quote lineCode text) where
  first := ⟨'"', _, rfl, by decide⟩
  last := ⟨_, '"', rfl, by decide, by decide⟩
  oneLine := by simp [quote, newline_notMem_escape]

/-- A character that is in no text and not in the text between them is in no list of them. -/
theorem notMem_intercalate {c : Char} {separator : List Char} {items : List (List Char)}
    (hseparator : c ∉ separator) (hitems : ∀ item ∈ items, c ∉ item) :
    c ∉ separator.intercalate items := by
  induction items with
  | nil => simp
  | cons item items ih =>
    have hitem := hitems item List.mem_cons_self
    have hrest := ih fun other hother => hitems other (List.mem_cons_of_mem item hother)
    cases items with
    | nil => rwa [List.intercalate_singleton]
    | cons next items =>
      simp only [List.intercalate_cons_cons, List.mem_append, not_or]
      exact ⟨⟨hitem, hseparator⟩, hrest⟩

/-- A list between brackets is solid. -/
theorem solid_enclose {left right : Char} {items : List (List Char)} (hleft : inWord left = true)
    (hright : isBlank right = false) (hcomma : right ≠ ',')
    (hitems : ∀ item ∈ items, '\n' ∉ item) : Solid (enclose left right items) where
  first := by
    unfold enclose
    split <;> exact ⟨left, _, rfl, hleft⟩
  last := by
    unfold enclose
    split
    · exact ⟨[left], right, rfl, hright, hcomma⟩
    · exact ⟨left :: ' ' :: ", ".toList.intercalate items ++ [' '], right, by simp, hright, hcomma⟩
  oneLine := by
    have hleft : '\n' ≠ left := by
      rintro rfl
      exact absurd hleft (by decide)
    have hright : '\n' ≠ right := by
      rintro rfl
      exact absurd hright (by decide)
    have hseparator : '\n' ∉ ", ".toList := by decide
    have hinside := notMem_intercalate hseparator hitems
    unfold enclose
    split
    · simp [hleft, hright]
    · simp only [List.mem_cons, List.mem_append, List.not_mem_nil, not_or, or_false]
      exact ⟨⟨hleft, by decide, hinside⟩, by decide, hright⟩

/-- The texts of several atoms are the texts of each. -/
theorem values_eq_map (atoms : List Atom) : values atoms = atoms.map value := by
  induction atoms with
  | nil => rfl
  | cons atom atoms ih => rw [values, ih, List.map_cons]

/-- The text of an entry on one line. -/
def field (entry : String × List Atom) : List Char :=
  quote lineCode entry.1.toList ++ " : ".toList ++ spread entry.2 (values entry.2)

/-- The texts of a dico's entries are the texts of each. -/
theorem fields_eq_map (entries : List (String × List Atom)) :
    fields entries = entries.map field := by
  induction entries with
  | nil => rfl
  | cons entry entries ih => rw [fields, ih, List.map_cons, field]

/-- The value of an entry is a list in brackets or, for one atom that is no vector, the text of that
atom. -/
theorem spread_values (atoms : List Atom) :
    spread atoms (values atoms) = enclose '[' ']' (values atoms) ∨
      ∃ atom, atoms = [atom] ∧ (∀ items, atom ≠ .vector items) ∧
        spread atoms (values atoms) = value atom := by
  match atoms with
  | [] => exact Or.inl rfl
  | [.vector _] => exact Or.inl rfl
  | [.undefined] | [.bool _] | [.long _] | [.double _ _] | [.symbol _] | [.dico _ _] =>
    exact Or.inr ⟨_, rfl, by simp, rfl⟩
  | first :: _ :: _ => cases first <;> exact Or.inl rfl

/-- The value of an entry stays on its line if its atoms do. -/
theorem solid_spread {atoms : List Atom} (h : ∀ atom ∈ atoms, Solid (value atom)) :
    Solid (spread atoms (values atoms)) := by
  rcases spread_values atoms with hlist | ⟨atom, rfl, -, hsingle⟩
  · rw [hlist, values_eq_map]
    refine solid_enclose (by decide) (by decide) (by decide) fun item hitem => ?_
    obtain ⟨atom, hatom, rfl⟩ := List.mem_map.mp hitem
    exact (h atom hatom).oneLine
  · rw [hsingle]
    exact h atom List.mem_cons_self

/-- The characters of the texts that are no lists and not quoted. -/
def spelling : List Char := Numeral.letters ++ "truefalsenull".toList

/-- They may all stand in a word. -/
theorem inWord_of_mem_spelling {c : Char} (h : c ∈ spelling) : inWord c = true := by
  have hspelling : spelling.all inWord = true := by decide
  exact List.all_eq_true.mp hspelling c h

/-- Numbers are spelled with them. -/
theorem mem_spelling_of_mem_letters {c : Char} (h : c ∈ Numeral.letters) : c ∈ spelling :=
  List.mem_append_left _ h

/-- An integer is spelled with them. -/
theorem mem_spelling_of_mem_long {n : Int64} {c : Char} (h : c ∈ value (.long n)) : c ∈ spelling :=
  mem_spelling_of_mem_letters (Numeral.mem_letters_of_mem_int h)

/-- So is a double. -/
theorem mem_spelling_of_mem_double {x : Float} {minus : Bool} {c : Char}
    (h : c ∈ value (.double x minus)) : c ∈ spelling :=
  mem_spelling_of_mem_letters (Numeral.mem_letters_of_mem_atomDouble h)

/-- A text spelled with these characters is solid. -/
theorem solid_of_spelling {word : List Char} (hne : word ≠ []) (h : word ⊆ spelling) :
    Solid word :=
  solid_word hne fun _ hc => inWord_of_mem_spelling (h hc)

/-- Every value is solid. -/
theorem solid_value (atom : Atom) : Solid (value atom) := by
  induction atom using Atom.induction with
  | undefined => exact solid_of_spelling (by decide) (by decide)
  | bool value => cases value <;> exact solid_of_spelling (by decide) (by decide)
  | long n => exact solid_of_spelling (Numeral.int_ne_nil _) fun _ => mem_spelling_of_mem_long
  | double x minus =>
    exact solid_of_spelling (Numeral.atomDouble_ne_nil x) fun _ => mem_spelling_of_mem_double
  | symbol text => exact solid_quote _
  | vector items ih =>
    rw [value, values_eq_map]
    refine solid_enclose (by decide) (by decide) (by decide) fun item hitem => ?_
    obtain ⟨atom, hatom, rfl⟩ := List.mem_map.mp hitem
    exact (ih atom hatom).oneLine
  | dico entries identity ih =>
    rw [value, fields_eq_map]
    refine solid_enclose (by decide) (by decide) (by decide) fun item hitem => ?_
    obtain ⟨entry, hentry, rfl⟩ := List.mem_map.mp hitem
    have hseparator : '\n' ∉ " : ".toList := by decide
    simp only [field, List.mem_append, not_or]
    exact ⟨⟨(solid_quote _).oneLine, hseparator⟩, (solid_spread (ih entry hentry)).oneLine⟩

/-- A value that is no vector does not start with a bracket. -/
theorem head?_value {atom : Atom} (h : ∀ items, atom ≠ .vector items) :
    (value atom).head? ≠ some '[' := by
  have hspelling : '[' ∉ spelling := by decide
  cases atom with
  | undefined => decide
  | bool value => cases value <;> decide
  | long n => exact fun hhead => hspelling (mem_spelling_of_mem_long (List.mem_of_head? hhead))
  | double x minus =>
    exact fun hhead => hspelling (mem_spelling_of_mem_double (List.mem_of_head? hhead))
  | symbol text => simp [value, quote]
  | vector items => exact absurd rfl (h items)
  | dico entries identity =>
    rw [value, enclose]
    split <;> simp

end Patchbay.Notation
