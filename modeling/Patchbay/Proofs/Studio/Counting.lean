import Patchbay.Proofs.Studio.LiveEdits
import Mathlib.Data.List.Dedup

/-!
# How many boxes are read

When a saved patch is read, a box is built from each description from which one can be built. The count
that is given out is another one: it counts the numbers under which such boxes were saved, each once, so
that a box without a number is missed, and boxes of one number are counted together.
-/

namespace Patchbay

/-- A box comes from a description under a number: the description names it, and the words of the
description are its text. -/
def Box.MadeFrom (box : Box) (detail : Dico) (id : Nat) : Prop :=
  box.id = id ∧ ∃ arguments, Patch.describe detail = .ok (box.name, arguments) ∧
    box.text = String.ofList (Words.write (.symbol box.name :: arguments))

namespace Studio

/-- The number under which a box was saved, if there is one. -/
def savedNumber? (detail : Dico) : Option Int :=
  let saved := Dico.getAtom detail "id"
  if saved.isNumber then some saved.toLong.toInt else none

namespace Renumbering

/-- Boxes are noted for these numbers and no others, one for each. -/
structure Notes (renumbering : Renumbering) (numbers : List Int) : Prop where
  nodup : (renumbering.map Prod.fst).Nodup
  mem_iff : ∀ number, number ∈ renumbering.map Prod.fst ↔ number ∈ numbers

variable {renumbering : Renumbering} {numbers : List Int}

/-- A number that is noted anew takes the place of what was noted for it. -/
theorem Notes.note (h : renumbering.Notes numbers) (saved : Int) (id : Nat) :
    (renumbering.note saved id).Notes (numbers ++ [saved]) := by
  have hkeys : (renumbering.note saved id).map Prod.fst =
      saved :: (renumbering.map Prod.fst).filter (· != saved) := by
    rw [Renumbering.note, List.map_cons, List.filter_map]
    rfl
  constructor
  · rw [hkeys]
    exact List.nodup_cons.mpr ⟨by simp, h.nodup.filter _⟩
  · intro number
    rw [hkeys, List.mem_cons, List.mem_filter, h.mem_iff, List.mem_append, List.mem_singleton]
    by_cases hnumber : number = saved <;> simp [hnumber]

/-- There are as many notes as there are different numbers. -/
theorem Notes.length_eq (h : renumbering.Notes numbers) : renumbering.length = numbers.dedup.length := by
  have hperm : (renumbering.map Prod.fst).Perm numbers.dedup :=
    (List.perm_ext_iff_of_nodup h.nodup numbers.nodup_dedup).mpr fun number => by
      rw [h.mem_iff, List.mem_dedup]
  rw [← hperm.length_eq, List.length_map]

end Renumbering

variable {studio : Studio} {number : Nat} {patch : Patch}

/-- The descriptions among the entries of a saved patch from which a box is built, with the numbers of
these boxes. -/
def built (number : Nat) : List Atom → Studio → List (Dico × Nat)
  | [], _ => []
  | .dico detail _ :: rest, studio =>
    match studio.create number detail with
    | (later, .ok id) => (detail, id) :: built number rest later
    | (later, .error _) => built number rest later
  | _ :: rest, studio => built number rest studio

/-- Building a box either puts it behind the others or fails and leaves them as they are. -/
theorem create_builds (hpatch : studio.patch? number = some patch) (detail : Dico) :
    ∃ later, (studio.create number detail).1.patch? number = some later ∧
      match (studio.create number detail).2 with
      | .ok id => ∃ body : Box, body.MadeFrom detail id ∧ later.bodies = patch.bodies ++ [body]
      | .error _ => later.bodies = patch.bodies := by
  rcases create_inversion hpatch detail with ⟨error, -, hcreate⟩ |
    ⟨name, arguments, hdescribe, ⟨-, hcreate⟩ |
      ⟨registration, -, ⟨reason, -, hcreate⟩ | ⟨plan, -, hresult, service, hlater⟩⟩⟩
  · rw [hcreate]
    exact ⟨patch, hpatch, rfl⟩
  · rw [hcreate]
    exact ⟨patch, hpatch, rfl⟩
  · rw [hcreate]
    exact ⟨patch.reserve.1, patch?_setPatch hpatch _, rfl⟩
  · refine ⟨_, hlater, ?_⟩
    rw [hresult]
    exact ⟨(assemble ⟨name, arguments, detail.keys, patch.nextId⟩ plan detail service).body,
      ⟨rfl, arguments, hdescribe, rfl⟩, Patch.bodies_install _ _⟩

/-- Reading descriptions puts the boxes that are built from them behind those that were there. -/
theorem readBoxes_builds (hpatch : studio.patch? number = some patch) (entries : List Atom)
    (renumbering : Renumbering) :
    ∃ later bodies, (readBoxes number entries (studio, renumbering)).1.patch? number = some later ∧
      later.bodies = patch.bodies ++ bodies ∧
      List.Forall₂ (fun body made => Box.MadeFrom body made.1 made.2) bodies
        (built number entries studio) := by
  induction entries generalizing studio patch renumbering with
  | nil => exact ⟨patch, [], hpatch, (List.append_nil _).symm, .nil⟩
  | cons entry entries ih =>
    cases entry with
    | dico detail identity =>
      obtain ⟨now, hnow, hmade⟩ := create_builds hpatch detail
      rw [readBoxes, built]
      generalize studio.create number detail = outcome at hnow hmade
      obtain ⟨next, result⟩ := outcome
      cases result with
      | error error =>
        obtain ⟨later, bodies, hlater, hbodies, hmatch⟩ := ih hnow renumbering
        exact ⟨later, bodies, hlater, hmade ▸ hbodies, hmatch⟩
      | ok id =>
        obtain ⟨body, hbody, hnowBodies⟩ := hmade
        obtain ⟨later, bodies, hlater, hbodies, hmatch⟩ := ih hnow _
        refine ⟨later, body :: bodies, hlater, ?_, .cons hbody hmatch⟩
        rw [hbodies, hnowBodies, List.append_assoc, List.singleton_append]
    | undefined | bool | long | double | symbol | vector => exact ih hpatch renumbering

/-- What is noted after descriptions have been read are the numbers under which the boxes that were built
from them had been saved. -/
theorem readBoxes_notes (studio : Studio) (number : Nat) (entries : List Atom)
    {renumbering : Renumbering} {numbers : List Int} (h : renumbering.Notes numbers) :
    (readBoxes number entries (studio, renumbering)).2.Notes
      (numbers ++ ((built number entries studio).map Prod.fst).filterMap savedNumber?) := by
  induction entries generalizing studio renumbering numbers with
  | nil =>
    rw [readBoxes, built, List.map_nil, List.filterMap_nil, List.append_nil]
    exact h
  | cons entry entries ih =>
    cases entry with
    | dico detail identity =>
      rw [readBoxes, built]
      obtain ⟨next, result⟩ := studio.create number detail
      cases result with
      | error error => exact ih next h
      | ok id =>
        dsimp only
        rw [List.map_cons]
        cases hsaved : (Dico.getAtom detail "id").isNumber with
        | false =>
          have hnone : savedNumber? detail = none := by
            simp only [savedNumber?, hsaved, Bool.false_eq_true, if_false]
          rw [List.filterMap_cons_none hnone, if_neg Bool.false_ne_true]
          exact ih next h
        | true =>
          have hsome : savedNumber? detail = some (Dico.getAtom detail "id").toLong.toInt := by
            simp only [savedNumber?, hsaved, if_true]
          rw [List.filterMap_cons_some hsome, List.append_cons, if_pos rfl]
          exact ih next (h.note _ id)
    | undefined | bool | long | double | symbol | vector => exact ih studio h

/-- Of some descriptions, no more different numbers can be told than there are descriptions, and as many
only if each has a number of its own. -/
theorem length_savedNumbers (details : List Dico) :
    (details.filterMap savedNumber?).dedup.length ≤ details.length ∧
      ((details.filterMap savedNumber?).dedup.length = details.length ↔
        (∀ detail ∈ details, (savedNumber? detail).isSome = true) ∧
          (details.filterMap savedNumber?).Nodup) := by
  have hdedup := (List.dedup_sublist (details.filterMap savedNumber?)).length_le
  have hnumbers := List.length_filterMap_le savedNumber? details
  refine ⟨hdedup.trans hnumbers, ?_⟩
  rw [← List.filterMap_length_eq_length, ← List.dedup_eq_self]
  constructor
  · intro hlength
    exact ⟨by omega, (List.dedup_sublist _).eq_of_length (by omega)⟩
  · rintro ⟨hall, hdistinct⟩
    rw [hdistinct, hall]

/-- Drawing wires leaves the boxes as they are apart from their machines. -/
theorem readLinks_bodies (hpatch : studio.patch? number = some patch) (links : List Atom)
    (renumbering : Renumbering) :
    ∃ later, (readLinks number renumbering links studio).patch? number = some later ∧
      later.bodies = patch.bodies := by
  refine readLinks_induction
    (P := fun studio => ∃ later, studio.patch? number = some later ∧ later.bodies = patch.bodies) ?_
    renumbering links ⟨patch, hpatch, rfl⟩
  rintro studio source outlet target inlet ⟨now, hnow, hbodies⟩
  cases hconnect : now.connect source outlet target inlet with
  | error error => exact ⟨now, by simp only [editPatch, hnow, hconnect], hbodies⟩
  | ok later =>
    obtain ⟨signal, -, rfl⟩ := Patch.connect_eq_ok hconnect
    exact ⟨_, patch?_editPatch hnow hconnect, (Patch.bodies_rebuildIf _ signal).trans hbodies⟩

/-- Whatever is in a patch, and whatever is read into it, malformed or not: its boxes are afterwards those
that were built from the descriptions, in their order, each from a description of its own. The count that
is given out is that of the different numbers among these descriptions. So it is never more than the
number of boxes, and it is the number of boxes if and only if each description from which a box was built
has a number and no two of them have the same. -/
theorem readPatch_counts_numbers (hpatch : studio.patch? number = some patch) (saved : Dico) :
    let made := built number (saved.get "boxes") (studio.editPatch number fun patch => .ok patch.clear).1
    let details := made.map Prod.fst
    ∃ later, (studio.readPatch number saved).1.patch? number = some later ∧
      List.Forall₂ (fun box made => Box.MadeFrom box made.1 made.2) later.boxes made ∧
      (studio.readPatch number saved).2 = (details.filterMap savedNumber?).dedup.length ∧
      (studio.readPatch number saved).2 ≤ later.boxes.length ∧
      ((studio.readPatch number saved).2 = later.boxes.length ↔
        (∀ detail ∈ details, (savedNumber? detail).isSome = true) ∧
          (details.filterMap savedNumber?).Nodup) := by
  intro made details
  have hcleared : (studio.editPatch number fun patch => .ok patch.clear).1.patch? number =
      some patch.clear := patch?_editPatch hpatch rfl
  have hempty : patch.clear.bodies = [] := Patch.bodies_rebuildIf _ true
  obtain ⟨now, bodies, hnow, hbodies, hmade⟩ := readBoxes_builds hcleared (saved.get "boxes") []
  obtain ⟨later, hlater, hkept⟩ := readLinks_bodies hnow (saved.get "links")
    (readBoxes number (saved.get "boxes")
      ((studio.editPatch number fun patch => .ok patch.clear).1, [])).2
  -- Nothing is left in a patch that has been cleared, and wires are drawn between the boxes that are there.
  rw [hempty, List.nil_append] at hbodies
  rw [← hbodies, ← hkept, Patch.bodies, List.forall₂_map_left_iff] at hmade
  have hcount : (studio.readPatch number saved).2 = (details.filterMap savedNumber?).dedup.length := by
    have hnone : Renumbering.Notes [] [] := ⟨List.nodup_nil, fun _ => Iff.rfl⟩
    exact (readBoxes_notes _ number (saved.get "boxes") hnone).length_eq
  have hlength : later.boxes.length = details.length :=
    hmade.length_eq.trans (List.length_map _).symm
  refine ⟨later, hlater, hmade, hcount, ?_⟩
  rw [hcount, hlength]
  exact length_savedNumbers details

/-- Saved boxes as they may be written by hand: two of one number, one without a number, one that no studio
knows, one that cannot be built, and what is no box at all. -/
def handwritten : Dico := [("boxes", [
  .dico [("id", [.long 1]), ("text", [.symbol "print"])],
  .dico [("text", [.symbol "print"])],
  .dico [("id", [.long 2]), ("text", [.symbol "nothing"])],
  .long 3,
  .dico [("id", [.long 3]), ("text", [.symbol "send"])],
  .dico [("id", [.bool true]), ("text", [.symbol "print"])]])]

/-- Of these, three boxes are built, and one is counted. -/
theorem readPatch_counts_numbers_handwritten :
    ∃ later, (fresh.readPatch 0 handwritten).1.patch? 0 = some later ∧
      later.boxes.length = 3 ∧ (fresh.readPatch 0 handwritten).2 = 1 := by
  have hpatch : fresh.patch? 0 = some {} := rfl
  obtain ⟨later, hlater, hboxes, hcount, -⟩ := readPatch_counts_numbers hpatch handwritten
  refine ⟨later, hlater, hboxes.length_eq.trans ?_, hcount.trans ?_⟩
  · decide +kernel
  · decide +kernel

/-- It is not so that the boxes are counted: a single box without a number goes uncounted. -/
theorem not_forall_readPatch_counts :
    ¬ ∀ (studio : Studio) (number : Nat) (patch : Patch), studio.patch? number = some patch →
      ∀ saved, ∃ later, (studio.readPatch number saved).1.patch? number = some later ∧
        (studio.readPatch number saved).2 = later.boxes.length := by
  intro h
  let saved : Dico := [("boxes", [.dico [("text", [.symbol "print"])]])]
  obtain ⟨later, hlater, hcount⟩ := h fresh 0 {} rfl saved
  have hboxes : ((fresh.readPatch 0 saved).1.patch? 0).map (fun patch => patch.boxes.length) = some 1 := by
    decide +kernel
  have hnone : (fresh.readPatch 0 saved).2 = 0 := by decide +kernel
  rw [hlater, Option.map_some, Option.some.injEq] at hboxes
  rw [hnone, hboxes] at hcount
  cases hcount

end Studio

end Patchbay
