import Patchbay.Proofs.Patch.Intact
import Patchbay.Proofs.Studio.Lasting

/-!
# Studios of intact patches

Nothing that can be asked of a studio breaks one of its patches: neither an operation on a patch, nor a
message with all that it brings about, be it that boxes edit the patch in which they are, or that a box
gets a message which was taken out of its patch.
-/

namespace Patchbay.Studio

variable {studio : Studio} {number : Nat} {patch : Patch}

/-- A patch stays intact whatever is asked for. -/
theorem lasting_intact : Lasting Patch.Intact where
  change h hchange hsame := h.change_of_nextId hchange hsame
  reserve h := h.reserve
  install h hid hplan detail service := h.install hid (Box.built_assemble hplan detail service)
  react h hbox hreacts := by
    cases hreacts with
    | receive here hsheet inlet atoms =>
      exact h.updateBox hbox (Machine.profile_receive _ _ _ _)
        (fun _ hready => Machine.prepare_receive hready _ _ _) _
    | tick here hsheet =>
      exact h.updateBox hbox (Machine.profile_tick _ _) (fun _ hready => Machine.prepare_tick hready _) _

/-- All patches of a studio are intact. -/
def Sane (studio : Studio) : Prop :=
  ∀ number patch, studio.patch? number = some patch → patch.Intact

/-- Every operation leaves all patches intact. -/
theorem Sane.operate (h : studio.Sane) (number : Nat) (operation : Operation) :
    (studio.operate number operation).Sane := lasting_intact.operate h operation

/-- Every request leaves all patches intact. -/
theorem Sane.perform (h : studio.Sane) (request : Request) : (request.perform studio).Sane :=
  lasting_intact.perform h request

/-- What can be done in a studio: an operation on one of its patches, or a request. -/
inductive Move where
  | operate (number : Nat) (operation : Operation)
  | request (request : Request)

/-- Make a move. -/
def move (studio : Studio) : Move → Studio
  | .operate number operation => studio.operate number operation
  | .request request => request.perform studio

/-- Make moves one after the other. -/
def moveAll (studio : Studio) (moves : List Move) : Studio := moves.foldl move studio

/-- Moves leave all patches intact. -/
theorem Sane.moveAll (h : studio.Sane) (moves : List Move) : (studio.moveAll moves).Sane := by
  induction moves generalizing studio with
  | nil => exact h
  | cons first rest ih =>
    refine ih ?_
    cases first with
    | operate number operation => exact h.operate number operation
    | request request => exact h.perform request

/-- A patch may arise if moves lead to it in a studio of empty patches. -/
def Arises (patch : Patch) : Prop :=
  ∃ (studio : Studio) (moves : List Move) (number : Nat),
    (∀ number patch, studio.patch? number = some patch → patch = {}) ∧
      (studio.moveAll moves).patch? number = some patch

/-- Then it is intact. -/
theorem Arises.intact (h : Arises patch) : patch.Intact := by
  obtain ⟨studio, moves, number, hempty, hpatch⟩ := h
  have hstart : studio.Sane := fun place found hfound => hempty place found hfound ▸ .empty
  exact hstart.moveAll moves number patch hpatch

/-- A patch to which moves lead in a fresh studio may arise. -/
theorem arises_of_fresh {moves : List Move} (hpatch : (fresh.moveAll moves).patch? number = some patch) :
    Arises patch :=
  ⟨fresh, moves, number, fun _ _ hfound => eq_empty_of_fresh hfound, hpatch⟩

end Patchbay.Studio
