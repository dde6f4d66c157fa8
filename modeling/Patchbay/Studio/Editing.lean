import Patchbay.Studio.Basic

/-!
# Building and editing patches

Boxes are built from descriptions. A number is given out as soon as the name of the box is known,
and stays used even if the box cannot be built. Attributes that the description mentions are set
once the box is built.

Reading a saved patch replaces everything in a patch. What cannot be built or connected is left out.
-/

namespace Patchbay.Studio

/-- Get the number of the service that a box needs. -/
def provide (studio : Studio) (handle : Handle) : Service → Studio × Nat
  | .none => (studio, 0)
  | .clock => (studio, studio.clock)
  | .speak name =>
    let (registry, number) := studio.registry.create name
    ({ studio with registry }, number)
  | .listen name =>
    let (registry, number) := studio.registry.create name
    ({ studio with registry := registry.bind number (.box handle) }, number)

/-- The box that a plan describes. -/
def assemble (site : Site) (plan : Plan Machine) (detail : Dico) (number : Nat) : Box :=
  { id := site.id
    name := site.name
    text := String.ofList (Words.write (.symbol site.name :: site.arguments))
    inlets := plan.inlets
    outlets := plan.outlets
    sheet := (plan.attributes.foldl Sheet.add Box.commonSheet).restore detail true
    machine := plan.state number }

/-- Build a box from a description and put it into a patch. -/
def create (studio : Studio) (number : Nat) (detail : Dico) : Studio × Except PatchError Nat :=
  match studio.patch? number with
  | none => (studio, .error .emptyDescription)
  | some patch =>
    match Patch.describe detail with
    | .error error => (studio, .error error)
    | .ok (name, arguments) =>
      match studio.catalog.get? name with
      | none => (studio, .error (.unknownObject name))
      | some registration =>
        let (reserved, id) := patch.reserve
        let site : Site := ⟨name, arguments, detail.keys, id⟩
        match registration.model.plan site with
        | .error reason => (studio.setPatch number reserved, .error (.construction name reason))
        | .ok plan =>
          let (provided, service) := studio.provide ⟨number, id⟩ plan.service
          (provided.setPatch number (reserved.install (assemble site plan detail service)), .ok id)

/-- Build a box from a line of text. -/
def createFromText (studio : Studio) (number : Nat) (text : String) :
    Studio × Except PatchError Nat :=
  studio.create number [("text", Words.read text.toList)]

/-- Change a patch, and unbind the boxes that this takes out. -/
def editPatch (studio : Studio) (number : Nat) (edit : Patch → Except PatchError Patch) :
    Studio × Except PatchError Unit :=
  match studio.patch? number with
  | none => (studio, .ok ())
  | some patch =>
    match edit patch with
    | .error error => (studio, .error error)
    | .ok patch => ((studio.setPatch number patch).prune, .ok ())

/-- Carry out an edit that a box asked for, and tell whether it succeeded. -/
def applyEdit (studio : Studio) (number : Nat) : Edit → Studio × Bool
  | .remove id =>
    let (studio, result) := studio.editPatch number fun patch => patch.remove id
    (studio, result.isOk)
  | .connect source outlet target inlet =>
    let (studio, result) :=
      studio.editPatch number fun patch => patch.connect source outlet target inlet
    (studio, result.isOk)
  | .disconnect source outlet target inlet =>
    let (studio, result) :=
      studio.editPatch number fun patch => patch.disconnect source outlet target inlet
    (studio, result.isOk)
  | .create words =>
    let (studio, result) :=
      studio.createFromText number (String.ofList (Words.write words))
    (studio, result.isOk)
  | .clear => ((studio.editPatch number fun patch => .ok patch.clear).1, true)

/-- The boxes built while a patch is read, under the numbers that they were saved with. The latest
box of a number counts. -/
abbrev Renumbering := List (Int × Nat)

/-- The box that stands for a saved number. -/
def Renumbering.find? (renumbering : Renumbering) (saved : Int) : Option Nat :=
  (List.find? (fun entry => entry.1 == saved) renumbering).map Prod.snd

/-- Note the box that stands for a saved number. -/
def Renumbering.note (renumbering : Renumbering) (saved : Int) (id : Nat) : Renumbering :=
  (saved, id) :: renumbering.filter fun entry => entry.1 != saved

/-- Build the boxes of a saved patch. -/
def readBoxes (number : Nat) : List Atom → Studio × Renumbering → Studio × Renumbering
  | [], state => state
  | .dico detail _ :: rest, (studio, renumbering) =>
    let (studio, result) := studio.create number detail
    let saved := Dico.getAtom detail "id"
    let renumbering := match result with
      | .ok id =>
        if saved.isNumber then renumbering.note saved.toLong.toInt id else renumbering
      | .error _ => renumbering
    readBoxes number rest (studio, renumbering)
  | _ :: rest, state => readBoxes number rest state

/-- The wire that an entry of a saved patch describes. -/
def savedConnection? (renumbering : Renumbering) (link : Dico) : Option (Nat × Nat × Nat × Nat) :=
  match link.get "from", link.get "to" with
  | source :: outlet :: _, target :: inlet :: _ =>
    match renumbering.find? source.toLong.toInt, renumbering.find? target.toLong.toInt with
    | some source, some target =>
      some (source, outlet.toLong.toInt.toNat, target, inlet.toLong.toInt.toNat)
    | _, _ => none
  | _, _ => none

/-- Draw the wires of a saved patch. -/
def readLinks (number : Nat) (renumbering : Renumbering) : List Atom → Studio → Studio
  | [], studio => studio
  | .dico link _ :: rest, studio =>
    let studio := match savedConnection? renumbering link with
      | some (source, outlet, target, inlet) =>
        (studio.editPatch number fun patch => patch.connect source outlet target inlet).1
      | none => studio
    readLinks number renumbering rest studio
  | _ :: rest, studio => readLinks number renumbering rest studio

/-- Replace the contents of a patch with a saved patch, and count the numbers under which boxes were
saved and could be built. -/
def readPatch (studio : Studio) (number : Nat) (saved : Dico) : Studio × Nat :=
  let cleared := (studio.editPatch number fun patch => .ok patch.clear).1
  let (built, renumbering) := readBoxes number (saved.get "boxes") (cleared, [])
  (readLinks number renumbering (saved.get "links") built, renumbering.length)

end Patchbay.Studio
