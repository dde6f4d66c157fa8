import Mathlib.Data.List.Basic
import Patchbay.Text.Blank

/-!
# Lines

Lines that hold no newline are cut out of their text again. A line that starts and ends with something
other than a blank loses nothing but its indentation when it is trimmed.
-/

namespace Patchbay.Text

/-- A blank in front is dropped. -/
theorem trimFront_cons_blank {c : Char} (h : isBlank c = true) (rest : List Char) :
    trimFront (c :: rest) = trimFront rest := by
  rw [trimFront, List.dropWhile_cons, if_pos h, trimFront]

/-- Nothing is dropped in front of something else. -/
theorem trimFront_cons {c : Char} (h : isBlank c = false) (rest : List Char) :
    trimFront (c :: rest) = c :: rest := by
  rw [trimFront, List.dropWhile_cons, h]
  rfl

/-- Spaces in front are dropped. -/
theorem trimFront_replicate (count : Nat) (text : List Char) :
    trimFront (List.replicate count ' ' ++ text) = trimFront text := by
  induction count with
  | zero => rfl
  | succ count ih => rw [List.replicate_succ, List.cons_append, trimFront_cons_blank (by decide), ih]

/-- Nothing is dropped behind something else than a blank. -/
theorem trimBack_concat {c : Char} (h : isBlank c = false) (front : List Char) :
    trimBack (front ++ [c]) = front ++ [c] := by
  simp [trimBack, h]

/-- A line is cut off at its newline. -/
theorem lines_append_newline {line : List Char} (h : '\n' ∉ line) (rest : List Char) :
    lines (line ++ '\n' :: rest) = line :: lines rest := by
  induction line with
  | nil => simp [lines]
  | cons c line ih =>
    have hc : c ≠ '\n' := fun heq => h (by simp [heq])
    rw [List.cons_append, lines, if_neg hc, ih fun hmem => h (List.mem_cons_of_mem c hmem)]

/-- Lines without newlines are the lines of their text. -/
theorem lines_flatMap {all : List (List Char)} (h : ∀ line ∈ all, '\n' ∉ line) :
    lines (all.flatMap (· ++ ['\n'])) = all := by
  induction all with
  | nil => rfl
  | cons line all ih =>
    rw [List.flatMap_cons, List.append_assoc, List.singleton_append,
      lines_append_newline (h line List.mem_cons_self),
      ih fun other hother => h other (List.mem_cons_of_mem line hother)]

end Patchbay.Text
