import Patchbay.Storage.PatchFile
import Patchbay.Studio.Editing

/-!
# Listings

What the program prints about the boxes that can be built and about saved patches.
-/

namespace Patchbay.Listing

/-- A text padded with blanks on the right. -/
def padded (width : Nat) (text : String) : String := String.ofList (Text.padRight width text.toList)

/-- The categories in the order of the listing. -/
def categories : List Category := [.control, .signal, .timing, .communication]

/-- The boxes of one category by name, under its title; nothing if there are none. -/
def ofCategory (catalog : Catalog) (category : Category) : List String :=
  match catalog.inCategory category with
  | [] => []
  | found =>
    let sorted := found.mergeSort fun a b => decide (a.name ≤ b.name)
    ["", s!"{category.name}:"] ++
      sorted.map fun descriptor => s!"  {padded 10 descriptor.name}  {descriptor.description}"

/-- All boxes that can be built. -/
def ofCatalog (catalog : Catalog) : List String :=
  ["Available Objects", "================="] ++ categories.flatMap (ofCategory catalog) ++
    ["", "Details: kumiko objects \"osc~ 440\""]

/-- The inlets, outlets and attributes of a box. -/
def ofBox (box : Box) : List String :=
  let inlets := box.inlets.zipIdx.map fun (inlet, index) =>
    let heat := if inlet.hot then "hot" else "cold"
    s!"  {index}  {padded 8 inlet.kind.name}  {padded 4 heat}  {inlet.description}"
  let outlets := box.outlets.zipIdx.map fun (outlet, index) =>
    s!"  {index}  {padded 8 outlet.kindName}  {outlet.description}"
  let row (name value : String) := s!"  {padded 14 name}  {value}"
  let attributes := box.sheet.keys.map fun name =>
    row name (String.ofList (Words.write (box.sheet.value name)))
  "Inlets:" :: inlets ++ "Outlets:" :: outlets ++
    ["", "Attributes:", row "Name" "Value", row "----" "-----"] ++ attributes

/-- The head of what is shown about one box. -/
def ofDescriptor (descriptor : Descriptor) : List String :=
  [descriptor.name, String.ofList (List.replicate descriptor.name.length '='), "",
    descriptor.description, s!"Category: {descriptor.category.name}", ""]

/-- Everything about the box that a text creates; nothing if no box has the name in front. -/
def ofText? (text : String) : Except String (List String) :=
  let name := String.ofList ((Text.words text.toList).headD [])
  let (studio, number) := ({} : Studio).addPatch
  match studio.catalog.descriptor? name with
  | none => .error name
  | some descriptor =>
    let details := match studio.createFromText number text with
      | (_, .error error) => [s!"Cannot instantiate '{text}': {error.message}"]
      | (studio, .ok id) =>
        (((studio.patch? number).bind fun patch => patch.box? id).map ofBox).getD []
    .ok (ofDescriptor descriptor ++ details)

/-- The user's patches by name and path. -/
def ofPatches (folder : String) : List String → List String
  | [] => [s!"User Patches ({folder}):", "  (none)", "",
      "  Save one from the console with: save <path>.kumiko"]
  | paths =>
    s!"User Patches ({folder}):" :: paths.map fun path =>
      let name := (Path.stem? path).getD "unknown"
      s!"  {padded 20 name} {path}"

end Patchbay.Listing
