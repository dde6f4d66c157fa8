import Patchbay.Dico.Reader
import Patchbay.Proofs.Keyed

/-!
# Reading into a dico

Reading a text into a dico that holds entries already is reading it by itself and storing what was read
over these entries. The reader touches them only when it is done with an outermost block: up to there
all entries go into the block that is open. So the reader at work on a dico is at any time the reader at
work on an empty one, with its finished entries stored over those of the dico.
-/

namespace Patchbay.Notation

namespace Progress

variable {progress : Progress}

/-- What has been read, stored over the entries of a dico. -/
def onto (dico : Dico) (progress : Progress) : Progress :=
  ⟨dico.merge progress.root, progress.open?⟩

/-- The keys of finished entries are distinct after a block is closed. -/
theorem nodup_close (h : (Keyed.keys progress.root).Nodup) : (Keyed.keys progress.close.root).Nodup := by
  unfold close
  split
  · exact h
  · exact Keyed.nodup_merge h _
  · exact h

/-- They are so after each line. -/
theorem nodup_line (h : (Keyed.keys progress.root).Nodup) (raw : List Char) :
    (Keyed.keys (progress.line raw).root).Nodup := by
  unfold line
  dsimp only
  split
  · exact h
  split
  · split
    · exact h
    · split
      · exact Keyed.nodup_merge h _
      · exact h
  · split
    · exact nodup_close h
    · split <;> exact h

/-- They are so in the end. -/
theorem nodup_finish (h : (Keyed.keys progress.root).Nodup) : (Keyed.keys progress.finish).Nodup := by
  unfold finish
  split
  · exact h
  · exact Keyed.nodup_merge h _

/-- A block that is closed over a dico is stored over its entries if it is an outermost one, and stays
apart from them otherwise. -/
theorem close_onto (h : (Keyed.keys progress.root).Nodup) (dico : Dico) :
    (progress.onto dico).close = progress.close.onto dico := by
  obtain ⟨root, open?⟩ := progress
  match open? with
  | none => rfl
  | some ⟨filled, []⟩ => rw [close, onto, close, onto, Keyed.merge_merge h]
  | some ⟨filled, (outer, key) :: around⟩ => rfl

/-- A line says the same whatever dico is read into. -/
theorem line_onto (h : (Keyed.keys progress.root).Nodup) (dico : Dico) (raw : List Char) :
    (progress.onto dico).line raw = (progress.line raw).onto dico := by
  have hclose := close_onto h dico
  obtain ⟨root, open?⟩ := progress
  unfold onto at hclose ⊢
  unfold line
  dsimp only at hclose ⊢
  split
  · rfl
  cases open? with
  | none =>
    dsimp only
    split
    · rfl
    · split
      · rw [Keyed.merge_merge h]
      · rfl
  | some block =>
    dsimp only
    split
    · exact hclose
    · split <;> rfl

/-- Blocks that are left open are stored over the entries of the dico too. -/
theorem finish_onto (h : (Keyed.keys progress.root).Nodup) (dico : Dico) :
    (progress.onto dico).finish = dico.merge progress.finish := by
  obtain ⟨root, open?⟩ := progress
  cases open? with
  | none => rfl
  | some block => rw [finish, onto, finish, Keyed.merge_merge h]

/-- So it is after any number of lines. -/
theorem foldl_line_onto (h : (Keyed.keys progress.root).Nodup) (dico : Dico)
    (lines : List (List Char)) :
    lines.foldl line (progress.onto dico) = (lines.foldl line progress).onto dico ∧
      (Keyed.keys (lines.foldl line progress).root).Nodup := by
  induction lines generalizing progress with
  | nil => exact ⟨rfl, h⟩
  | cons raw lines ih =>
    rw [List.foldl_cons, line_onto h]
    exact ih (nodup_line h raw)

end Progress

/-- The keys that are read of a text are distinct. -/
theorem nodup_read (text : List Char) : (Keyed.keys (read text)).Nodup := by
  have hstart : (Keyed.keys (Progress.root ⟨[], none⟩)).Nodup := List.nodup_nil
  exact Progress.nodup_finish (Progress.foldl_line_onto hstart [] (Text.lines text)).2

/-- Whatever a text is like, reading it into a dico stores over the entries of that what is read of the
text by itself. The keys of the dico stay in their order and the new ones come behind them in the order
of the text, and under every key is what was read, or what was there before if nothing was. -/
theorem readInto_eq_merge (dico : Dico) (text : List Char) :
    readInto dico text = dico.merge (read text) ∧
      Keyed.keys (readInto dico text) =
        dico.keys ++ (Keyed.keys (read text)).filter (· ∉ dico.keys) ∧
      ∀ key, (readInto dico text).get? key = ((read text).get? key).or (dico.get? key) := by
  have hstart : (Keyed.keys (Progress.root ⟨[], none⟩)).Nodup := List.nodup_nil
  obtain ⟨hover, hnodup⟩ := Progress.foldl_line_onto hstart dico (Text.lines text)
  have hmerge : readInto dico text = dico.merge (read text) := by
    calc readInto dico text
        = ((Text.lines text).foldl Progress.line (Progress.onto dico ⟨[], none⟩)).finish := rfl
      _ = (((Text.lines text).foldl Progress.line ⟨[], none⟩).onto dico).finish := by rw [hover]
      _ = dico.merge (read text) := Progress.finish_onto hnodup dico
  refine ⟨hmerge, ?_, fun key => ?_⟩
  · rw [hmerge, Keyed.keys_merge (nodup_read text)]
  · rw [hmerge, Keyed.get?_merge (nodup_read text)]

end Patchbay.Notation
