import Patchbay.Box.Catalog
import Patchbay.Dico.Reader
import Patchbay.Patch.Error

/-!
# Patches

A patch holds boxes and the wires between them. Boxes have numbers, which are given out in ascending
order and never again. A box that is taken out of the patch may still be in the way of a message, so
it is kept aside with its state.

While signal processing runs, the patch has a signal chain made from its present boxes and wires, or
none if the signal wires form a cycle. Every edit that touches the signal part makes the chain anew.
-/

namespace Patchbay

/-- A box with its inlets and outlets, attributes and state. -/
structure Box where
  id : Nat
  name : String
  /-- The text that the box is created from: its name and its arguments. -/
  text : String
  inlets : List Inlet
  outlets : List Outlet
  sheet : Sheet
  machine : Machine
deriving Inhabited

namespace Box

/-- Decide whether the box has to do with signals. -/
def hasSignals (box : Box) : Bool :=
  box.inlets.any Inlet.takesSignal || box.outlets.any Outlet.signal

/-- The box as far as signal processing is concerned. -/
def node (box : Box) : SignalNode :=
  { id := box.id
    ready := box.machine.isReady
    inPlace := box.machine.worksInPlace
    inlets := box.inlets.length
    outlets := box.outlets.map Outlet.signal }

/-- The attributes of every box. -/
def commonSheet : Sheet :=
  let look (name : String) (kind : Kind) (default : List Float) (label : String) (order : Int) :=
    (((Attribute.declare name kind (default.map (.double ·))).withLabel label).withCategory
      "Appearance").withOrder order
  let habit (name label : String) (order : Int) :=
    (((Attribute.declare name .bool [.bool false]).withLabel label).withCategory
      "Behavior").withOrder order
  [look "position" .point [0.0, 0.0] "Position" 1,
    (look "size" .size [100.0, 20.0] "Size" 2).withMin 10.0,
    look "color" .color [0.9, 0.9, 0.9] "Background Color" 3,
    habit "hidden" "Hide on Lock" 1,
    habit "presentation" "Include in Presentation" 2,
    habit "ignore_click" "Ignore Click" 3].foldl Sheet.add []

end Box

/-- The state of signal processing. -/
structure Engine where
  running : Bool := false
  sampleRate : Float32 := 44100.0
  blockSize : Nat := 64
  bus : Bus Sample := Bus.silent .zero 2 2 64
  chain? : Option (Chain Sample) := none
deriving Inhabited

/-- Boxes by ascending number, wires in the order of connecting, and signal processing. -/
structure Patch where
  boxes : List Box := []
  /-- Boxes taken out of the patch. -/
  retired : List Box := []
  connections : List Connection := []
  /-- The number of the next box. -/
  nextId : Nat := 0
  /-- How deeply deliveries of messages may nest. -/
  depthLimit : Nat := 512
  engine : Engine := {}
deriving Inhabited

namespace Patch

/-- The box of a number. -/
def box? (patch : Patch) (id : Nat) : Option Box := patch.boxes.find? fun box => box.id == id

/-- The box of a number, be it in the patch or taken out. -/
def boxOrRetired? (patch : Patch) (id : Nat) : Option Box :=
  (patch.box? id).orElse fun _ => patch.retired.find? fun box => box.id == id

/-- The numbers of the boxes. -/
def ids (patch : Patch) : List Nat := patch.boxes.map Box.id

/-- Change the box of a number, be it in the patch or taken out. -/
def updateBox (patch : Patch) (id : Nat) (change : Box → Box) : Patch :=
  let update (box : Box) := if box.id = id then change box else box
  { patch with boxes := patch.boxes.map update, retired := patch.retired.map update }

/-- The signal part of the patch. -/
def signalGraph (patch : Patch) : SignalGraph :=
  { nodes := (patch.boxes.filter Box.hasSignals).map Box.node
    edges := patch.connections.filter Connection.signal }

/-- Make the boxes that have to do with signals ready for a sample rate. -/
def prepare (patch : Patch) (sampleRate : Float32) : Patch :=
  { patch with
    boxes := patch.boxes.map fun box =>
      if box.hasSignals then { box with machine := box.machine.prepare sampleRate } else box }

/-- Make the chain anew if signal processing runs. With a cycle there is no chain. -/
def rebuild (patch : Patch) : Patch × Option ChainError :=
  if patch.engine.running then
    let rate := patch.engine.sampleRate
    let prepared := patch.prepare rate
    match Chain.build Sample.zero prepared.signalGraph rate patch.engine.blockSize with
    | .ok chain => ({ prepared with engine := { prepared.engine with chain? := some chain } }, none)
    | .error error =>
      ({ prepared with engine := { prepared.engine with chain? := none } }, some error)
  else (patch, none)

/-- Make the chain anew if an edit touched the signal part. -/
def rebuildIf (patch : Patch) (signal : Bool) : Patch :=
  if signal then patch.rebuild.1 else patch

/-- Give out the next number. -/
def reserve (patch : Patch) : Patch × Nat :=
  ({ patch with nextId := patch.nextId + 1 }, patch.nextId)

/-- Put a box that has been built into the patch. -/
def install (patch : Patch) (box : Box) : Patch :=
  let joined : Patch := { patch with boxes := patch.boxes ++ [box] }
  joined.rebuildIf box.hasSignals

/-- Take boxes out of the patch, whose wires and chain are in order already. Signal boxes are
released if signal processing runs. -/
def retire (patch : Patch) (boxes : List Box) : Patch :=
  let released := boxes.map fun box =>
    if patch.engine.running && box.hasSignals then
      { box with machine := box.machine.release }
    else box
  { patch with retired := patch.retired ++ released }

/-- Remove a box and the wires that end at it. -/
def remove (patch : Patch) (id : Nat) : Except PatchError Patch :=
  match patch.box? id with
  | none => .error (.boxNotFound id)
  | some box =>
    let cut : Patch :=
      { patch with
        boxes := patch.boxes.filter fun other => other.id != id
        connections := patch.connections.filter fun connection => !connection.touches id }
    .ok ((cut.rebuildIf box.hasSignals).retire [box])

/-- Remove all boxes and wires. -/
def clear (patch : Patch) : Patch :=
  let emptied : Patch := { patch with boxes := [], connections := [] }
  (emptied.rebuildIf true).retire patch.boxes

/-- Check a new wire, and tell whether it carries a signal. -/
def checkConnection (patch : Patch) (source outlet target inlet : Nat) :
    Except PatchError Bool := do
  if source = target then throw (.selfConnection source)
  let some sourceBox := patch.box? source | throw (.boxNotFound source)
  let some targetBox := patch.box? target | throw (.boxNotFound target)
  let some output := sourceBox.outlets[outlet]? | throw (.noSuchOutlet source outlet)
  let some input := targetBox.inlets[inlet]? | throw (.noSuchInlet target inlet)
  if !input.accepts output then throw (.incompatibleKinds source outlet target inlet)
  if patch.connections.any fun connection => connection.joins source outlet target inlet then
    throw (.duplicateConnection source outlet target inlet)
  return output.signal

/-- Wire an outlet to an inlet. -/
def connect (patch : Patch) (source outlet target inlet : Nat) : Except PatchError Patch :=
  (patch.checkConnection source outlet target inlet).map fun signal =>
    let wired : Patch := { patch with
      connections := patch.connections ++ [{ source, outlet, target, inlet, signal }] }
    wired.rebuildIf signal

/-- Take away the wire from an outlet to an inlet. -/
def disconnect (patch : Patch) (source outlet target inlet : Nat) : Except PatchError Patch :=
  match patch.connections.find? fun connection => connection.joins source outlet target inlet with
  | none => .error (.connectionNotFound source outlet target inlet)
  | some connection =>
    let cut : Patch := { patch with
      connections := patch.connections.eraseP fun connection =>
        connection.joins source outlet target inlet }
    .ok (cut.rebuildIf connection.signal)

/-- Check that a message may be sent to an inlet. -/
def checkInlet (patch : Patch) (id inlet : Nat) : Except PatchError Unit := do
  let some box := patch.box? id | throw (.boxNotFound id)
  let some found := box.inlets[inlet]? | throw (.noSuchInlet id inlet)
  if !found.takesControl then throw (.signalOnlyInlet id inlet)

/-- The inlets that messages from an outlet go to, in the order of connecting. -/
def targets (patch : Patch) (source outlet : Nat) : List (Nat × Nat) :=
  (patch.connections.filter fun connection =>
    !connection.signal && connection.source == source && connection.outlet == outlet &&
      (patch.box? connection.target).isSome).map
  fun connection => (connection.target, connection.inlet)

/-- Set an attribute of a box, and tell whether its value changed. -/
def setAttribute (patch : Patch) (id : Nat) (name : String) (atoms : List Atom) :
    Except PatchError (Patch × Bool) :=
  match patch.box? id with
  | none => .error (.boxNotFound id)
  | some box =>
    match box.sheet.store? name atoms false with
    | some sheet => .ok (patch.updateBox id fun box => { box with sheet }, true)
    | none => .ok (patch, false)

/-- The entry of a box in a saved patch. -/
def describeBox (box : Box) : Atom :=
  let dico : Dico := [("id", [.long (Int64.ofNat box.id)]), ("text", [.symbol box.text])]
  .dico (box.sheet.write dico)

/-- The entry of a wire in a saved patch. -/
def describeConnection (connection : Connection) : Atom :=
  let number (n : Nat) := Atom.long (Int64.ofNat n)
  .dico [("from", [number connection.source, number connection.outlet]),
    ("to", [number connection.target, number connection.inlet])]

/-- The patch as a dico. -/
def write (patch : Patch) : Dico :=
  [("boxes", patch.boxes.map describeBox), ("links", patch.connections.map describeConnection)]

/-- Split the description of a box into its name and its arguments. The text of a description is one
symbol to be read, or atoms as they are. -/
def describe (detail : Dico) : Except PatchError (String × List Atom) :=
  let atoms :=
    if detail.has "text" then
      match detail.get "text" with
      | [.symbol text] => Words.read text.toList
      | atoms => atoms
    else detail.getAtom "name" :: detail.get "arguments"
  match atoms with
  | .symbol name :: arguments =>
    if name.isEmpty then .error .emptyDescription else .ok (name, arguments)
  | _ => .error .emptyDescription

end Patch

end Patchbay
