import Patchbay.Proofs.Box.Built
import Patchbay.Proofs.Studio.Operation

/-!
# Boxes put into a patch

When a box is built it stands behind the others, and all that making the chain anew changes is the state
of machines. What a box is apart from its machine decides what is saved of it.
-/

namespace Patchbay

/-- A box apart from its machine. -/
def Box.body (box : Box) : Box := { box with machine := .control .pass }

namespace Patch

/-- The boxes of a patch apart from their machines. -/
def bodies (patch : Patch) : List Box := patch.boxes.map Box.body

/-- The bodies tell the numbers. -/
theorem map_id_bodies (patch : Patch) : patch.bodies.map Box.id = patch.ids := by
  rw [bodies, List.map_map]
  rfl

/-- Making the chain anew changes machines only. -/
theorem bodies_rebuildIf (patch : Patch) (signal : Bool) :
    (patch.rebuildIf signal).bodies = patch.bodies := by
  have hprepare (sampleRate : Float32) : (patch.prepare sampleRate).bodies = patch.bodies :=
    patch.map_boxes_prepare fun _ => rfl
  unfold rebuildIf
  split
  · unfold rebuild
    split
    · dsimp only
      split <;> exact hprepare _
    · rfl
  · rfl

/-- A box that is put in stands behind the others. -/
theorem bodies_install (patch : Patch) (box : Box) :
    (patch.install box).bodies = patch.bodies ++ [box.body] := by
  rw [install, bodies_rebuildIf, bodies, bodies, List.map_append]
  rfl

/-- The box that is put in is the last one, apart from its machine. -/
theorem getLast?_install (patch : Patch) (box : Box) :
    ∃ last, (patch.install box).boxes.getLast? = some last ∧ last.body = box.body := by
  rw [← Option.map_eq_some_iff, ← List.getLast?_map]
  change (patch.install box).bodies.getLast? = some box.body
  rw [bodies_install, List.getLast?_concat]

/-- The atoms that the text of a description stands for. -/
def spoken : List Atom → List Atom
  | [.symbol text] => Words.read text.toList
  | atoms => atoms

/-- The name and the arguments among atoms. -/
def named : List Atom → Except PatchError (String × List Atom)
  | .symbol name :: arguments =>
    if name.isEmpty then .error .emptyDescription else .ok (name, arguments)
  | _ => .error .emptyDescription

/-- Atoms are of use if they start with a name. -/
theorem named_eq_ok_iff {atoms : List Atom} {name : String} {arguments : List Atom} :
    named atoms = .ok (name, arguments) ↔ atoms = .symbol name :: arguments ∧ name ≠ "" := by
  constructor
  · intro h
    unfold named at h
    split at h
    · next first rest =>
      split at h
      · cases h
      · next hsome =>
        obtain ⟨rfl, rfl⟩ := Prod.mk.inj (Except.ok.inj h)
        exact ⟨rfl, fun hempty => hsome (String.isEmpty_iff.mpr hempty)⟩
    · cases h
  · rintro ⟨rfl, hname⟩
    exact if_neg fun hempty => hname (String.isEmpty_iff.mp hempty)

/-- A description by a text is of use if the text starts with a name. -/
theorem describe_eq_ok_iff {detail : Dico} (hhas : Keyed.has detail "text" = true) {name : String}
    {arguments : List Atom} : describe detail = .ok (name, arguments) ↔
      spoken (detail.get "text") = .symbol name :: arguments ∧ name ≠ "" := by
  have hdescribe : describe detail = named (spoken (detail.get "text")) := by
    simp only [describe, if_pos hhas]
    rfl
  rw [hdescribe, named_eq_ok_iff]

end Patch

namespace Studio

variable {studio : Studio} {number : Nat} {patch : Patch}

/-- An edit that succeeds puts its result in the place of the patch. -/
theorem patch?_editPatch (hpatch : studio.patch? number = some patch)
    {edit : Patch → Except PatchError Patch} {later : Patch} (hedit : edit patch = .ok later) :
    (studio.editPatch number edit).1.patch? number = some later := by
  simp only [editPatch, hpatch, hedit]
  exact patch?_setPatch hpatch later

/-- Editing leaves the catalog as it is. -/
theorem catalog_editPatch (studio : Studio) (number : Nat)
    (edit : Patch → Except PatchError Patch) :
    (studio.editPatch number edit).1.catalog = studio.catalog := by
  unfold editPatch
  split
  · rfl
  · split <;> rfl

/-- Building a box leaves the catalog as it is. -/
theorem catalog_create (studio : Studio) (number : Nat) (detail : Dico) :
    (studio.create number detail).1.catalog = studio.catalog := by
  have hprovide : ∀ handle service, (studio.provide handle service).1.catalog = studio.catalog := by
    intro handle service
    cases service <;> rfl
  unfold create
  split
  · rfl
  split
  · rfl
  split
  · rfl
  dsimp only
  split
  · rfl
  · exact hprovide _ _

/-- A box that can be built has the next number, and is put into the patch. -/
theorem create_eq_ok (hpatch : studio.patch? number = some patch) {detail : Dico} {name : String}
    {arguments : List Atom} (hdescribe : Patch.describe detail = .ok (name, arguments))
    {registration : Registration} (hregistration : studio.catalog.get? name = some registration)
    {plan : Plan Machine}
    (hplan : registration.model.plan ⟨name, arguments, detail.keys, patch.nextId⟩ = .ok plan) :
    (studio.create number detail).2 = .ok patch.nextId ∧ ∃ service,
      (studio.create number detail).1.patch? number = some (patch.reserve.1.install
        (assemble ⟨name, arguments, detail.keys, patch.nextId⟩ plan detail service)) := by
  have hprovided := fun service =>
    (patch?_provide studio ⟨number, patch.nextId⟩ service number).trans hpatch
  simp only [create, hpatch, hdescribe, hregistration, Patch.reserve, hplan]
  exact ⟨trivial, _, patch?_setPatch (hprovided _) _⟩

/-- What can become of a description: it describes nothing, its name is not known, the box cannot be built,
which uses up a number, or it is put into the patch. -/
theorem create_inversion (hpatch : studio.patch? number = some patch) (detail : Dico) :
    (∃ error, Patch.describe detail = .error error ∧
      studio.create number detail = (studio, .error error)) ∨
    ∃ name arguments, Patch.describe detail = .ok (name, arguments) ∧
      ((studio.catalog.get? name = none ∧
        studio.create number detail = (studio, .error (.unknownObject name))) ∨
      ∃ registration, studio.catalog.get? name = some registration ∧
        ((∃ reason,
          registration.model.plan ⟨name, arguments, detail.keys, patch.nextId⟩ = .error reason ∧
          studio.create number detail =
            (studio.setPatch number patch.reserve.1, .error (.construction name reason))) ∨
        ∃ plan, registration.model.plan ⟨name, arguments, detail.keys, patch.nextId⟩ = .ok plan ∧
          (studio.create number detail).2 = .ok patch.nextId ∧ ∃ service,
            (studio.create number detail).1.patch? number = some (patch.reserve.1.install
              (assemble ⟨name, arguments, detail.keys, patch.nextId⟩ plan detail service)))) := by
  cases hdescribe : Patch.describe detail with
  | error error => exact Or.inl ⟨error, rfl, by simp only [create, hpatch, hdescribe]⟩
  | ok described =>
  obtain ⟨name, arguments⟩ := described
  refine Or.inr ⟨name, arguments, rfl, ?_⟩
  cases hregistration : studio.catalog.get? name with
  | none => exact Or.inl ⟨rfl, by simp only [create, hpatch, hdescribe, hregistration]⟩
  | some registration =>
  refine Or.inr ⟨registration, rfl, ?_⟩
  cases hplan : registration.model.plan ⟨name, arguments, detail.keys, patch.nextId⟩ with
  | error reason =>
    exact Or.inl ⟨reason, rfl, by
      simp only [create, hpatch, hdescribe, hregistration, Patch.reserve, hplan]⟩
  | ok plan => exact Or.inr ⟨plan, rfl, create_eq_ok hpatch hdescribe hregistration hplan⟩

/-- Unless a box can be built, no box comes into the patch, and signal processing goes on. -/
theorem create_cases (hpatch : studio.patch? number = some patch) (detail : Dico) :
    (∃ later, (studio.create number detail).1.patch? number = some later ∧
      later.boxes = patch.boxes ∧ later.engine = patch.engine) ∨
    ∃ name arguments registration plan, Patch.describe detail = .ok (name, arguments) ∧
      studio.catalog.get? name = some registration ∧
      registration.model.plan ⟨name, arguments, detail.keys, patch.nextId⟩ = .ok plan := by
  rcases create_inversion hpatch detail with ⟨error, -, hcreate⟩ |
    ⟨name, arguments, hdescribe, ⟨-, hcreate⟩ |
      ⟨registration, hregistration, ⟨reason, -, hcreate⟩ | ⟨plan, hplan, -⟩⟩⟩
  · exact Or.inl ⟨patch, hcreate ▸ hpatch, rfl, rfl⟩
  · exact Or.inl ⟨patch, hcreate ▸ hpatch, rfl, rfl⟩
  · exact Or.inl ⟨patch.reserve.1, hcreate ▸ patch?_setPatch hpatch _, rfl, rfl⟩
  · exact Or.inr ⟨name, arguments, registration, plan, hdescribe, hregistration, hplan⟩

end Studio

end Patchbay
