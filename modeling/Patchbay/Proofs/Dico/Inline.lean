import Patchbay.Proofs.Dico.Shape
import Patchbay.Proofs.Keyed

/-!
# Values read back from one line

The reader takes exactly a value's text off the front of a line, whatever comes behind it, provided the
next character ends a word. Of any four steps it takes one at least comes off the line, so four steps
for each character are enough.
-/

namespace Patchbay.Notation

open Text

mutual

/-- An atom as its text gives it back: a double as the number its numeral stands for. -/
def reread : Atom → Atom
  | .double x _ => (number? (Numeral.atomDouble x)).getD .undefined
  | .vector items => .vector (rereadItems items)
  | .dico entries _ => .dico (rereadEntries entries)
  | .undefined => .undefined
  | .bool value => .bool value
  | .long n => .long n
  | .symbol text => .symbol text

/-- The atoms of a list as their texts give them back. -/
def rereadItems : List Atom → List Atom
  | [] => []
  | item :: rest => reread item :: rereadItems rest

/-- The entries of a dico as their texts give them back. -/
def rereadEntries : List (String × List Atom) → List (String × List Atom)
  | [] => []
  | (key, items) :: rest => (key, rereadItems items) :: rereadEntries rest

end

/-- Every atom of a list comes back by itself. -/
theorem rereadItems_eq_map (items : List Atom) : rereadItems items = items.map reread := by
  induction items with
  | nil => rfl
  | cons item items ih => rw [rereadItems, ih, List.map_cons]

/-- Every entry of a dico comes back by itself. -/
theorem rereadEntries_eq_map (entries : List (String × List Atom)) :
    rereadEntries entries = entries.map fun entry => (entry.1, rereadItems entry.2) := by
  induction entries with
  | nil => rfl
  | cons entry entries ih => rw [rereadEntries, ih, List.map_cons]

/-- The keys of a dico come back as they are. -/
theorem keys_rereadEntries (entries : List (String × List Atom)) :
    Keyed.keys (rereadEntries entries) = Keyed.keys entries := by
  simp [rereadEntries_eq_map, Keyed.keys]

/-- What is under a key comes back under it. -/
theorem get?_rereadEntries (entries : Dico) (key : String) :
    Keyed.get? (rereadEntries entries) key = (Keyed.get? entries key).map rereadItems := by
  rw [rereadEntries_eq_map]
  exact Keyed.get?_map entries rereadItems key

/-- The atoms under a key come back under it. -/
theorem get_rereadEntries (entries : Dico) (key : String) :
    Dico.get (rereadEntries entries) key = (Dico.get entries key).map reread := by
  rw [Dico.get, Dico.get, get?_rereadEntries]
  cases Keyed.get? entries key with
  | none => rfl
  | some items => exact rereadItems_eq_map items

/-- Decide whether a text keeps an atom, leaving aside the atoms inside it: a double is no NaN and is
read back from its numeral, and the keys of a dico are distinct. -/
def keeps : Atom → Bool
  | .double x _ => !x.isNaN && decide (Numeral.ReadsBack x)
  | .dico entries _ => decide (Keyed.keys entries).Nodup
  | _ => true

/-! ### Single tokens -/

/-- The first quote without a backslash in front closes a quoted text. -/
theorem stringRest?_escape (text rest : List Char) :
    stringRest? (escape lineCode text ++ '"' :: rest) = some (text, rest) := by
  induction text with
  | nil => rfl
  | cons c text ih =>
    by_cases hnewline : c = '\n'
    · simp [hnewline, escape, lineCode, stringRest?, unescape, ih]
    by_cases htab : c = '\t'
    · simp [htab, escape, lineCode, stringRest?, unescape, ih]
    by_cases hquote : c = '"'
    · simp [hquote, escape, lineCode, plainCode, stringRest?, unescape, ih]
    by_cases hslash : c = '\\'
    · simp [hslash, escape, lineCode, plainCode, stringRest?, unescape, ih]
    · simp [hnewline, htab, hquote, hslash, escape, lineCode, plainCode, stringRest?, ih]

/-- A quoted text is read whatever comes behind it. -/
theorem string?_quote (text : String) (rest : List Char) :
    string? (quote lineCode text.toList ++ rest) = some (text, rest) := by
  have hquote : trimFront ('"' :: (escape lineCode text.toList ++ '"' :: rest)) =
      '"' :: (escape lineCode text.toList ++ '"' :: rest) := trimFront_cons (by decide) _
  rw [quote, List.append_assoc, List.cons_append, List.singleton_append, string?, hquote]
  simp [stringRest?_escape]

/-- A mark is read if it comes first. -/
theorem mark?_self {c : Char} (h : isBlank c = false) (rest : List Char) :
    mark? c (c :: rest) = some rest := by
  simp [mark?, trimFront_cons h]

/-- A mark is not read if something else comes first. -/
theorem mark?_of_ne {c d : Char} (h : isBlank d = false) (hne : d ≠ c) (rest : List Char) :
    mark? c (d :: rest) = none := by
  simp [mark?, trimFront_cons h, hne]

/-- A blank before a mark is skipped. -/
theorem mark?_blank (c : Char) (text : List Char) : mark? c (' ' :: text) = mark? c text := by
  simp only [mark?, trimFront_cons_blank (show isBlank ' ' = true by decide)]

/-- A blank before a value is skipped. -/
theorem value?_blank (fuel : Nat) (text : List Char) :
    value? fuel (' ' :: text) = value? fuel text := by
  cases fuel with
  | zero => rfl
  | succ fuel => simp only [value?, trimFront_cons_blank (show isBlank ' ' = true by decide)]

/-- A blank before the items of a list is skipped. -/
theorem items?_blank (fuel : Nat) (text : List Char) :
    items? fuel (' ' :: text) = items? fuel text := by
  cases fuel with
  | zero => rfl
  | succ fuel => simp only [items?, value?_blank]

/-- A blank before the entries of a dico is skipped. -/
theorem fields?_blank (fuel : Nat) (text : List Char) :
    fields? fuel (' ' :: text) = fields? fuel text := by
  cases fuel with
  | zero => rfl
  | succ fuel =>
    simp only [fields?, string?, trimFront_cons_blank (show isBlank ' ' = true by decide)]

/-- A blank before the atoms of an entry is skipped. -/
theorem atoms?_blank (fuel : Nat) (text : List Char) :
    atoms? fuel (' ' :: text) = atoms? fuel text := by
  cases fuel with
  | zero => rfl
  | succ fuel => simp only [atoms?, mark?_blank, value?_blank]

/-- A bare word is read up to the end of the word. -/
theorem value?_word {word : List Char} (hne : word ≠ []) (h : word ⊆ spelling)
    {atom : Atom} (hword : word? word = some atom) (fuel : Nat) {rest : List Char}
    (hrest : ∀ c ∈ rest.head?, inWord c = false) :
    value? (fuel + 1) (word ++ rest) = some (atom, rest) := by
  have hinside : ∀ c ∈ word, inWord c = true := fun _ hc => inWord_of_mem_spelling (h hc)
  have htake : rest.takeWhile inWord = [] := by
    cases rest with
    | nil => rfl
    | cons d rest => simp [hrest d rfl]
  have hdrop : rest.dropWhile inWord = rest := by
    cases rest with
    | nil => rfl
    | cons d rest => simp [hrest d rfl]
  have hbare : (word? ((word ++ rest).takeWhile inWord)).map
      (fun atom => (atom, (word ++ rest).dropWhile inWord)) = some (atom, rest) := by
    rw [List.takeWhile_append_of_pos hinside, List.dropWhile_append_of_pos hinside, htake, hdrop,
      List.append_nil, hword]
    rfl
  obtain ⟨c, word, rfl⟩ := List.exists_cons_of_ne_nil hne
  have hmark : ∀ {mark}, mark ∉ spelling → c ≠ mark := fun hnone heq =>
    hnone (heq ▸ h List.mem_cons_self)
  rw [value?, List.cons_append, trimFront_cons (isBlank_of_inWord (hinside c List.mem_cons_self))]
  split
  · next heq => exact absurd (List.cons.inj heq).1 (hmark (by decide))
  · next heq => exact absurd (List.cons.inj heq).1 (hmark (by decide))
  · next heq => exact absurd (List.cons.inj heq).1 (hmark (by decide))
  · exact hbare

/-- A word spelled like a number is none of the three names. -/
theorem word?_of_letters {word : List Char} (h : word ⊆ Numeral.letters) :
    word? word = number? word := by
  have hname : ∀ {name : List Char}, ¬name ⊆ Numeral.letters → word ≠ name := fun hnone heq =>
    hnone (heq ▸ h)
  rw [word?, if_neg (hname (by decide)), if_neg (hname (by decide)), if_neg (hname (by decide))]

/-- An integer comes back from its text. -/
theorem number?_int (n : Int64) : number? (Numeral.int n.toInt) = some (.long n) := by
  have hchar : ∀ c ∈ Numeral.int n.toInt, Numeral.isDigit c = true ∨ c = '-' := by
    intro c hc
    rw [Numeral.int_eq_signed, Numeral.signed] at hc
    split at hc
    · rcases List.mem_cons.mp hc with rfl | hc
      · exact Or.inr rfl
      · exact Or.inl (Numeral.isDigit_of_mem_nat hc)
    · exact Or.inl (Numeral.isDigit_of_mem_nat hc)
  have hother : ∀ {c}, ¬(Numeral.isDigit c = true ∨ c = '-') → c ∉ Numeral.int n.toInt :=
    fun hneither hmem => hneither (hchar _ hmem)
  have hfloating : ((Numeral.int n.toInt).any (fun c => c == '.' || c == 'e' || c == 'E') ||
      "inf".toList.isSuffixOf (Numeral.int n.toInt) ||
      Numeral.int n.toInt == "NaN".toList) = false := by
    simp only [Bool.or_eq_false_iff, List.any_eq_false, beq_eq_false_iff_ne]
    refine ⟨⟨fun c hc => ?_, ?_⟩, ?_⟩
    · have hne : ∀ {d}, d ∉ Numeral.int n.toInt → c ≠ d := fun hnone heq => hnone (heq ▸ hc)
      simp [hne (hother (c := '.') (by decide)), hne (hother (c := 'e') (by decide)),
        hne (hother (c := 'E') (by decide))]
    · rw [← Bool.not_eq_true, List.isSuffixOf_iff_suffix]
      intro hsuffix
      exact hother (c := 'f') (by decide) (hsuffix.subset (by decide))
    · intro heq
      exact hother (c := 'N') (by decide) (heq ▸ by decide)
  simp only [number?, hfloating, Bool.false_eq_true, if_false, Numeral.readLong?_int]

/-- A double comes back as a number equal to it. -/
theorem number?_atomDouble {x : Float} (h : Numeral.ReadsBack x) :
    ∃ found, number? (Numeral.atomDouble x) = some found ∧ found.isNumber = true ∧
      found.toDouble = x := by
  simp only [number?]
  split
  · next n hn =>
    refine ⟨_, rfl, rfl, ?_⟩
    split at hn
    · cases hn
    · exact (Numeral.eq_of_readLong?_atomDouble h hn).2
  · rw [show Numeral.readDouble? _ = some x from h]
    exact ⟨_, rfl, rfl, rfl⟩

/-! ### Lists and dicos -/

/-- The reader takes the text of the atom off a line and gives the atom back. -/
def Readable (atom : Atom) : Prop :=
  ∀ (fuel : Nat) (rest : List Char), 4 * (value atom).length ≤ fuel →
    (∀ c ∈ rest.head?, inWord c = false) → value? fuel (value atom ++ rest) = some (reread atom, rest)

/-- The texts of a list, separated. -/
def joined (texts : List (List Char)) : List Char := ", ".toList.intercalate texts

/-- One text stands alone. -/
theorem joined_singleton (text : List Char) : joined [text] = text := List.intercalate_singleton

/-- A comma and a blank stand between two texts. -/
theorem joined_cons_cons (text next : List Char) (texts : List (List Char)) :
    joined (text :: next :: texts) = text ++ ',' :: ' ' :: joined (next :: texts) := by
  simp [joined, List.intercalate_cons_cons]

/-- Texts that are solid start with a character of a word when they are joined. -/
theorem exists_cons_joined {texts : List (List Char)} (hne : texts ≠ [])
    (h : ∀ text ∈ texts, Solid text) : ∃ c rest, joined texts = c :: rest ∧ inWord c = true := by
  obtain ⟨text, texts, rfl⟩ := List.exists_cons_of_ne_nil hne
  obtain ⟨c, rest, rfl, hc⟩ := (h text List.mem_cons_self).first
  cases texts with
  | nil => exact ⟨c, rest, joined_singleton _, hc⟩
  | cons next texts => exact ⟨c, _, joined_cons_cons _ next texts, hc⟩

/-- A list without items between its brackets. -/
theorem enclose_nil (left right : Char) : enclose left right [] = [left, right] := rfl

/-- A list with items between its brackets. -/
theorem enclose_of_ne_nil (left right : Char) {items : List (List Char)} (h : items ≠ []) :
    enclose left right items = left :: ' ' :: joined items ++ [' ', right] := by
  rw [enclose, List.isEmpty_eq_false_iff.mpr h]
  rfl

/-- A list starts with its left bracket. -/
theorem enclose_eq_cons (left right : Char) (items : List (List Char)) :
    enclose left right items = left :: (enclose left right items).tail := by
  unfold enclose
  split <;> rfl

/-- The last item is read with the right bracket. -/
theorem items?_last {fuel : Nat} {text rest : List Char} {atom : Atom}
    (h : value? fuel text = some (atom, ' ' :: ']' :: rest)) :
    items? (fuel + 1) text = some ([atom], rest) := by
  have htrim : trimFront (' ' :: ']' :: rest) = ']' :: rest := by
    rw [trimFront_cons_blank (by decide), trimFront_cons (by decide)]
  simp [items?, h, htrim]

/-- An item before the last is read with its comma. -/
theorem items?_comma {fuel : Nat} {text after rest : List Char} {atom : Atom} {atoms : List Atom}
    (h : value? fuel text = some (atom, ',' :: ' ' :: after))
    (hafter : items? fuel after = some (atoms, rest)) :
    items? (fuel + 1) text = some (atom :: atoms, rest) := by
  have htrim : trimFront (',' :: ' ' :: after) = ',' :: ' ' :: after := trimFront_cons (by decide) _
  simp [items?, h, htrim, items?_blank, hafter]

/-- The items of a list are read up to its right bracket. -/
theorem items?_joined {atoms : List Atom} (hne : atoms ≠ []) (h : ∀ atom ∈ atoms, Readable atom)
    {fuel : Nat} (hfuel : 4 * (joined (values atoms)).length + 1 ≤ fuel) (rest : List Char) :
    items? fuel (joined (values atoms) ++ ' ' :: ']' :: rest) = some (rereadItems atoms, rest) := by
  induction atoms generalizing fuel with
  | nil => exact absurd rfl hne
  | cons atom atoms ih =>
    obtain ⟨fuel, rfl⟩ := Nat.exists_eq_succ_of_ne_zero (Nat.ne_zero_of_lt hfuel)
    have hatom := h atom List.mem_cons_self
    cases atoms with
    | nil =>
      rw [values, values, joined_singleton] at hfuel ⊢
      exact items?_last (hatom fuel _ (by omega) (by simp; decide))
    | cons next atoms =>
      rw [values, values, joined_cons_cons, ← values] at hfuel ⊢
      simp only [List.length_append, List.length_cons] at hfuel
      rw [List.append_assoc]
      refine items?_comma (hatom fuel _ (by omega) (by simp; decide)) ?_
      exact ih (List.cons_ne_nil next atoms)
        (fun other hother => h other (List.mem_cons_of_mem atom hother)) (by omega)

/-- A list is read past its right bracket. -/
theorem list?_enclose {atoms : List Atom} (h : ∀ atom ∈ atoms, Readable atom) (fuel : Nat)
    (hfuel : 4 * (enclose '[' ']' (values atoms)).length ≤ fuel + 3) (rest : List Char) :
    list? fuel ((enclose '[' ']' (values atoms)).tail ++ rest) = some (rereadItems atoms, rest) := by
  cases atoms with
  | nil =>
    rw [values, enclose_nil] at hfuel ⊢
    simp only [List.length_cons, List.length_nil] at hfuel
    obtain ⟨fuel, rfl⟩ := Nat.exists_eq_succ_of_ne_zero (n := fuel) (by omega)
    simp [list?, mark?_self (show isBlank ']' = false by decide), rereadItems]
  | cons atom atoms =>
    have hne : values (atom :: atoms) ≠ [] := List.cons_ne_nil _ _
    rw [enclose_of_ne_nil _ _ hne] at hfuel ⊢
    simp only [List.length_cons, List.length_append] at hfuel
    obtain ⟨fuel, rfl⟩ := Nat.exists_eq_succ_of_ne_zero (n := fuel) (by omega)
    obtain ⟨c, first, hfirst, hc⟩ := exists_cons_joined hne fun text htext => by
      rw [values_eq_map] at htext
      obtain ⟨atom, -, rfl⟩ := List.mem_map.mp htext
      exact solid_value atom
    have hmark : mark? ']' (joined (values (atom :: atoms)) ++ ' ' :: ']' :: rest) = none := by
      rw [hfirst, List.cons_append]
      refine mark?_of_ne (isBlank_of_inWord hc) ?_ _
      rintro rfl
      exact absurd hc (by decide)
    simp only [List.cons_append, List.tail_cons, List.append_assoc, List.nil_append, list?,
      mark?_blank, hmark, items?_blank]
    exact items?_joined (List.cons_ne_nil _ _) h (by omega) rest

/-- The value of an entry is read. -/
theorem atoms?_spread {atoms : List Atom} (h : ∀ atom ∈ atoms, Readable atom) {fuel : Nat}
    (hfuel : 4 * (spread atoms (values atoms)).length + 1 ≤ fuel) (rest : List Char)
    (hrest : ∀ c ∈ rest.head?, inWord c = false) :
    atoms? fuel (spread atoms (values atoms) ++ rest) = some (rereadItems atoms, rest) := by
  obtain ⟨fuel, rfl⟩ := Nat.exists_eq_succ_of_ne_zero (Nat.ne_zero_of_lt hfuel)
  rcases spread_values atoms with hlist | ⟨atom, rfl, hvector, hsingle⟩
  · rw [hlist] at hfuel ⊢
    rw [enclose_eq_cons, List.cons_append, atoms?, mark?_self (by decide)]
    exact list?_enclose h _ (by omega) rest
  · rw [hsingle] at hfuel ⊢
    have hmark : mark? '[' (value atom ++ rest) = none := by
      obtain ⟨c, text, htext, hc⟩ := (solid_value atom).first
      rw [htext, List.cons_append]
      refine mark?_of_ne (isBlank_of_inWord hc) ?_ _
      rintro rfl
      exact head?_value hvector (by rw [htext]; rfl)
    rw [atoms?, hmark]
    simp only [h atom List.mem_cons_self fuel rest (by omega) hrest, Option.map_some]
    rfl

/-- The key of an entry is read off its text. -/
theorem string?_field (entry : String × List Atom) (rest : List Char) :
    string? (field entry ++ rest) =
      some (entry.1, " : ".toList ++ (spread entry.2 (values entry.2) ++ rest)) := by
  rw [field, List.append_assoc, List.append_assoc, string?_quote]

/-- The colon behind a key is read. -/
theorem mark?_colon (rest : List Char) : mark? ':' (" : ".toList ++ rest) = some (' ' :: rest) := by
  have hcolon : " : ".toList ++ rest = ' ' :: ':' :: ' ' :: rest := rfl
  rw [hcolon, mark?_blank, mark?_self (by decide)]

/-- The value of an entry is read behind its colon. -/
theorem atoms?_field {entry : String × List Atom} (h : ∀ atom ∈ entry.2, Readable atom) {fuel : Nat}
    (hfuel : 4 * (field entry).length ≤ fuel) (rest : List Char)
    (hrest : ∀ c ∈ rest.head?, inWord c = false) :
    atoms? fuel (' ' :: (spread entry.2 (values entry.2) ++ rest)) =
      some (rereadItems entry.2, rest) := by
  have hcolon : (" : ".toList).length = 3 := rfl
  simp only [field, List.length_append, hcolon] at hfuel
  rw [atoms?_blank, atoms?_spread h (by omega) rest hrest]

/-- The last entry is read with the right brace. -/
theorem fields?_last {entry : String × List Atom} (h : ∀ atom ∈ entry.2, Readable atom) {fuel : Nat}
    (hfuel : 4 * (field entry).length ≤ fuel) (rest : List Char) :
    fields? (fuel + 1) (field entry ++ ' ' :: '\x7d' :: rest) =
      some ([(entry.1, rereadItems entry.2)], rest) := by
  have htrim : trimFront (' ' :: '\x7d' :: rest) = '\x7d' :: rest := by
    rw [trimFront_cons_blank (by decide), trimFront_cons (by decide)]
  have hatoms := atoms?_field h hfuel (' ' :: '\x7d' :: rest) (by simp; decide)
  simp [fields?, string?_field, mark?_colon, hatoms, htrim, -String.reduceToList]

/-- An entry before the last is read with its comma. -/
theorem fields?_comma {entry : String × List Atom} (h : ∀ atom ∈ entry.2, Readable atom)
    {fuel : Nat} (hfuel : 4 * (field entry).length ≤ fuel) {after rest : List Char}
    {entries : List (String × List Atom)} (hafter : fields? fuel after = some (entries, rest)) :
    fields? (fuel + 1) (field entry ++ ',' :: ' ' :: after) =
      some ((entry.1, rereadItems entry.2) :: entries, rest) := by
  have htrim : trimFront (',' :: ' ' :: after) = ',' :: ' ' :: after := trimFront_cons (by decide) _
  have hatoms := atoms?_field h hfuel (',' :: ' ' :: after) (by simp; decide)
  simp [fields?, string?_field, mark?_colon, hatoms, htrim, fields?_blank, hafter,
    -String.reduceToList]

/-- The entries of a dico on one line are read up to its right brace. -/
theorem fields?_joined {entries : List (String × List Atom)} (hne : entries ≠ [])
    (h : ∀ entry ∈ entries, ∀ atom ∈ entry.2, Readable atom) {fuel : Nat}
    (hfuel : 4 * (joined (entries.map field)).length + 1 ≤ fuel) (rest : List Char) :
    fields? fuel (joined (entries.map field) ++ ' ' :: '\x7d' :: rest) =
      some (rereadEntries entries, rest) := by
  induction entries generalizing fuel with
  | nil => exact absurd rfl hne
  | cons entry entries ih =>
    obtain ⟨fuel, rfl⟩ := Nat.exists_eq_succ_of_ne_zero (Nat.ne_zero_of_lt hfuel)
    have hentry := h entry List.mem_cons_self
    cases entries with
    | nil =>
      rw [List.map_singleton, joined_singleton] at hfuel ⊢
      exact fields?_last hentry (by omega) rest
    | cons next entries =>
      rw [List.map_cons, List.map_cons, joined_cons_cons, ← List.map_cons] at hfuel ⊢
      simp only [List.length_append, List.length_cons] at hfuel
      rw [List.append_assoc]
      refine fields?_comma hentry (by omega) ?_
      exact ih (List.cons_ne_nil next entries)
        (fun other hother => h other (List.mem_cons_of_mem entry hother)) (by omega)

/-- What stands behind the key of an entry is solid. -/
theorem solid_side (entry : String × List Atom) : Solid (spread entry.2 (values entry.2)) :=
  solid_spread fun atom _ => solid_value atom

/-- A field is solid. -/
theorem solid_field (entry : String × List Atom) : Solid (field entry) where
  first := by
    obtain ⟨c, rest, hfirst, hc⟩ := (solid_quote entry.1.toList).first
    exact ⟨c, rest ++ " : ".toList ++ spread entry.2 (values entry.2), by simp [field, hfirst], hc⟩
  last := by
    obtain ⟨front, c, hlast, hc⟩ := (solid_side entry).last
    exact ⟨quote lineCode entry.1.toList ++ " : ".toList ++ front, c, by simp [field, hlast], hc⟩
  oneLine := by
    have hseparator : '\n' ∉ " : ".toList := by decide
    simp only [field, List.mem_append, not_or]
    exact ⟨⟨(solid_quote _).oneLine, hseparator⟩, (solid_side entry).oneLine⟩

/-- A dico is read past its right brace. -/
theorem object?_enclose {entries : List (String × List Atom)} (hkeys : (Keyed.keys entries).Nodup)
    (h : ∀ entry ∈ entries, ∀ atom ∈ entry.2, Readable atom) (fuel : Nat)
    (hfuel : 4 * (enclose '\x7b' '\x7d' (fields entries)).length ≤ fuel + 3) (rest : List Char) :
    object? fuel ((enclose '\x7b' '\x7d' (fields entries)).tail ++ rest) =
      some (rereadEntries entries, rest) := by
  rw [fields_eq_map] at hfuel ⊢
  cases entries with
  | nil =>
    rw [List.map_nil, enclose_nil] at hfuel ⊢
    simp only [List.length_cons, List.length_nil] at hfuel
    obtain ⟨fuel, rfl⟩ := Nat.exists_eq_succ_of_ne_zero (n := fuel) (by omega)
    simp [object?, mark?_self (show isBlank '\x7d' = false by decide), rereadEntries]
  | cons entry entries =>
    have hne : (entry :: entries).map field ≠ [] := List.cons_ne_nil _ _
    rw [enclose_of_ne_nil _ _ hne] at hfuel ⊢
    simp only [List.length_cons, List.length_append] at hfuel
    obtain ⟨fuel, rfl⟩ := Nat.exists_eq_succ_of_ne_zero (n := fuel) (by omega)
    obtain ⟨c, first, hfirst, hc⟩ := exists_cons_joined hne fun text htext => by
      obtain ⟨entry, -, rfl⟩ := List.mem_map.mp htext
      exact solid_field entry
    have hmark : mark? '\x7d' (joined ((entry :: entries).map field) ++ ' ' :: '\x7d' :: rest) =
        none := by
      rw [hfirst, List.cons_append]
      refine mark?_of_ne (isBlank_of_inWord hc) ?_ _
      rintro rfl
      exact absurd hc (by decide)
    have hdistinct : (Keyed.keys (rereadEntries (entry :: entries))).Nodup := by
      rwa [keys_rereadEntries]
    simp only [List.cons_append, List.tail_cons, List.append_assoc, List.nil_append, object?,
      mark?_blank, hmark, fields?_blank,
      fields?_joined (List.cons_ne_nil _ _) h (show _ ≤ fuel by omega) rest, Option.map_some]
    rw [Keyed.ofList_of_nodup hdistinct]

/-- A text spelled like a name or a number is read off a line. -/
theorem readable_word {atom : Atom} (h : value atom ⊆ spelling)
    (hword : word? (value atom) = some (reread atom)) : Readable atom := by
  intro fuel rest hfuel hrest
  obtain ⟨c, word, hvalue, -⟩ := (solid_value atom).first
  have hne : value atom ≠ [] := hvalue ▸ List.cons_ne_nil c word
  have hlength := List.length_pos_iff.mpr hne
  obtain ⟨fuel, rfl⟩ := Nat.exists_eq_succ_of_ne_zero (n := fuel) (by omega)
  exact value?_word hne h hword fuel hrest

/-- A value whose numerals are read back and whose keys are distinct is read off a line. -/
theorem readable {atom : Atom} (h : atom.every keeps = true) : Readable atom := by
  induction atom using Atom.induction with
  | undefined => exact readable_word (by decide) rfl
  | bool value => cases value <;> exact readable_word (by decide) rfl
  | long n =>
    have hletters : Numeral.int n.toInt ⊆ Numeral.letters := fun _ =>
      Numeral.mem_letters_of_mem_int
    refine readable_word (fun _ => mem_spelling_of_mem_long) ?_
    rw [value, word?_of_letters hletters, number?_int, reread]
  | double x minus =>
    have hletters : Numeral.atomDouble x ⊆ Numeral.letters := fun _ =>
      Numeral.mem_letters_of_mem_atomDouble
    have hback : keeps (.double x minus) = true := h
    rw [keeps, Bool.and_eq_true, decide_eq_true_eq] at hback
    obtain ⟨found, hfound, -, -⟩ := number?_atomDouble hback.2
    refine readable_word (fun _ => mem_spelling_of_mem_double) ?_
    rw [value, word?_of_letters hletters, reread, hfound, Option.getD_some]
  | symbol text =>
    intro fuel rest hfuel hrest
    obtain ⟨fuel, rfl⟩ := Nat.exists_eq_succ_of_ne_zero (n := fuel) (by simp [value, quote] at hfuel; omega)
    rw [value, quote, List.append_assoc, List.cons_append, List.singleton_append, value?,
      trimFront_cons (by decide)]
    simp [stringRest?_escape, reread]
  | vector items ih =>
    intro fuel rest hfuel hrest
    rw [Atom.every_vector] at h
    rw [value] at hfuel ⊢
    obtain ⟨fuel, rfl⟩ := Nat.exists_eq_succ_of_ne_zero (n := fuel) (by
      rw [enclose_eq_cons, List.length_cons] at hfuel
      omega)
    have hlist := list?_enclose (fun item hitem => ih item hitem (h.2 item hitem))
      fuel (by omega) rest
    rw [enclose_eq_cons, List.cons_append, value?, trimFront_cons (by decide)]
    simp [hlist, reread]
  | dico entries identity ih =>
    intro fuel rest hfuel hrest
    rw [Atom.every_dico, keeps, decide_eq_true_eq] at h
    rw [value] at hfuel ⊢
    obtain ⟨fuel, rfl⟩ := Nat.exists_eq_succ_of_ne_zero (n := fuel) (by
      rw [enclose_eq_cons, List.length_cons] at hfuel
      omega)
    have hobject := object?_enclose h.1
      (fun entry hentry item hitem => ih entry hentry item hitem (h.2 entry hentry item hitem))
      fuel (by omega) rest
    rw [enclose_eq_cons, List.cons_append, value?, trimFront_cons (by decide)]
    simp [hobject, reread]

end Patchbay.Notation
