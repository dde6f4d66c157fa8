import Mathlib.Data.List.DropRight
import Patchbay.Proofs.Text.Lines

/-!
# Words in front of a text

Words that stand in front of a text, each with a space behind it, are split off again one by one.
Trimming such a text at its end leaves the words alone: it cuts off blanks behind the last of them at
most, and then there is no text.
-/

namespace Patchbay.Text

/-- A word has characters, none of which is a blank. -/
structure IsWord (word : List Char) : Prop where
  ne_nil : word ≠ []
  plain : ∀ c ∈ word, isBlank c = false

theorem isWord_iff {word : List Char} :
    IsWord word ↔ (!word.isEmpty && word.all fun c => !isBlank c) = true := by
  simp only [Bool.and_eq_true, Bool.not_eq_true', List.isEmpty_eq_false_iff, List.all_eq_true]
  exact ⟨fun h => ⟨h.ne_nil, h.plain⟩, fun h => ⟨h.1, h.2⟩⟩

instance (word : List Char) : Decidable (IsWord word) := decidable_of_iff _ isWord_iff.symm

/-- A text that neither starts nor ends with a blank. -/
structure Trimmed (text : List Char) : Prop where
  front : ∀ c ∈ text.head?, isBlank c = false
  back : ∀ c ∈ text.getLast?, isBlank c = false

/-- A text behind words, with a space behind each of them. -/
def spoken : List (List Char) → List Char → List Char
  | [], text => text
  | word :: words, text => word ++ ' ' :: spoken words text

variable {word text : List Char}

/-! ### Trimming -/

theorem trimmed_nil : Trimmed [] := ⟨nofun, nofun⟩

/-- A word is trimmed. -/
theorem IsWord.trimmed (h : IsWord word) : Trimmed word :=
  ⟨fun c hc => h.plain c (List.mem_of_head? hc), fun c hc => h.plain c (List.mem_of_getLast? hc)⟩

/-- A text that starts like one trimmed text and ends like another is trimmed. -/
theorem Trimmed.append {front back : List Char} (hfront : Trimmed front) (hback : Trimmed back)
    (hsome : front ≠ []) (hmore : back ≠ []) (between : List Char) :
    Trimmed (front ++ (between ++ back)) where
  front c hc := by
    rw [List.head?_append_of_ne_nil _ hsome] at hc
    exact hfront.front c hc
  back c hc := by
    rw [← List.append_assoc, List.getLast?_append_of_ne_nil _ hmore] at hc
    exact hback.back c hc

/-- Nothing is dropped in front of a trimmed text. -/
theorem Trimmed.trimFront_eq (h : Trimmed text) : trimFront text = text := by
  cases text with
  | nil => rfl
  | cons c rest => exact trimFront_cons (h.front c rfl) rest

/-- Nothing is dropped behind it. -/
theorem Trimmed.trimBack_eq (h : Trimmed text) : trimBack text = text := by
  rcases List.eq_nil_or_concat text with rfl | ⟨front, c, rfl⟩
  · rfl
  · rw [List.concat_eq_append] at h ⊢
    exact trimBack_concat (h.back c List.getLast?_concat) front

/-- Blanks are dropped behind a text once. -/
theorem trimBack_trimBack (text : List Char) : trimBack (trimBack text) = trimBack text :=
  List.rdropWhile_idempotent isBlank text

/-- Blanks are dropped behind the second of two texts, and if nothing is left of it, behind the first. -/
theorem trimBack_append (front back : List Char) : trimBack (front ++ back) =
    if trimBack back = [] then trimBack front else front ++ trimBack back := by
  rw [trimBack, List.reverse_append, List.dropWhile_append]
  by_cases h : back.reverse.dropWhile isBlank = []
  · have hback : trimBack back = [] := congrArg List.reverse h
    rw [h, if_pos hback]
    rfl
  · have hback : trimBack back ≠ [] := fun hnone => h (List.reverse_eq_nil_iff.mp hnone)
    rw [if_neg (by simpa using h), if_neg hback, List.reverse_append, List.reverse_reverse]
    rfl

/-- Blanks are dropped behind a word and a text as they are behind the text. If nothing is left of it,
the space goes too. -/
theorem IsWord.trimBack_append (h : IsWord word) (text : List Char) :
    trimBack (word ++ ' ' :: text) =
      word ++ if trimBack text = [] then [] else ' ' :: trimBack text := by
  have hspace : trimBack (' ' :: text) =
      if trimBack text = [] then [] else ' ' :: trimBack text := Text.trimBack_append [' '] text
  rw [Text.trimBack_append, hspace]
  by_cases hnone : trimBack text = []
  · rw [if_pos hnone, if_pos rfl, h.trimmed.trimBack_eq, List.append_nil]
  · rw [if_neg hnone, if_neg (List.cons_ne_nil _ _)]

/-- Nothing is dropped in front of a word. -/
theorem IsWord.trimFront_append (h : IsWord word) (text : List Char) :
    trimFront (word ++ text) = word ++ text := by
  obtain ⟨c, rest, rfl⟩ := List.exists_cons_of_ne_nil h.ne_nil
  exact trimFront_cons (h.plain c List.mem_cons_self) _

/-! ### Splitting -/

/-- A word is split off the text behind it, which loses the blanks at its end. -/
theorem IsWord.splitAtBlank_append (h : IsWord word) (text : List Char) :
    splitAtBlank (trimBack (word ++ ' ' :: text)) = (word, trimBack text) := by
  have hplain : ∀ c ∈ word, (!isBlank c) = true := fun c hc => by
    rw [h.plain c hc]
    rfl
  rw [h.trimBack_append, splitAtBlank, List.takeWhile_append_of_pos hplain,
    List.dropWhile_append_of_pos hplain]
  by_cases hnone : trimBack text = []
  · rw [if_pos hnone, hnone, List.takeWhile_nil, List.append_nil]
    rfl
  · have hspace : isBlank ' ' = true := by decide
    rw [if_neg hnone, List.takeWhile_cons, List.dropWhile_cons, hspace]
    exact Prod.ext (List.append_nil word) rfl

end Patchbay.Text
