import Patchbay.Console.Command
import Patchbay.Settings.Basic
import Patchbay.Storage.PatchFile
import Patchbay.Studio.Time

/-!
# Console sessions

A session carries out commands on one patch, one after the other. Every command has a reply or an
error, and a session goes on after any error.
-/

namespace Patchbay

/-- A patch being edited at the console. -/
structure Console where
  studio : Studio
  /-- The number of the patch. -/
  number : Nat
  settings : EngineSettings
  /-- Where the user's patches are. -/
  userFolder : String
  /-- Whether signal processing was started from the console. -/
  driving : Bool := false
deriving Inhabited

/-- What the console answers to a line. -/
inductive Answer where
  | text (reply : String)
  | quit
deriving DecidableEq, Repr, Inhabited

namespace Console

/-- A studio whose patch is set up and empty. -/
def openEmpty (settings : EngineSettings) (userFolder : String) : Console :=
  let (studio, number) := ({} : Studio).addPatch
  let patch := settings.setUp ((studio.patch? number).getD {})
  { studio := studio.setPatch number patch, number, settings, userFolder }

/-- The patch being edited. -/
def patch (console : Console) : Patch := (console.studio.patch? console.number).getD {}

/-- Put another patch in place of the one being edited. -/
def setPatch (console : Console) (patch : Patch) : Console :=
  { console with studio := console.studio.setPatch console.number patch }

/-- Stop signal processing if it was started from the console. -/
def stopDriving (console : Console) : Console :=
  if console.driving then { console.setPatch console.patch.stop with driving := false } else console

/-- The line that describes a box. -/
def describe (box : Box) : String :=
  s!"{box.text} ({box.inlets.length} in, {box.outlets.length} out)"

/-- The line that describes a wire. -/
def describeConnection (connection : Connection) : String :=
  let arrow := if connection.signal then "~>" else "->"
  s!"{connection.source}:{connection.outlet} {arrow} {connection.target}:{connection.inlet}"

/-- The list of all boxes and wires. -/
def listing (patch : Patch) : String :=
  if patch.boxes.isEmpty then "(empty patch)"
  else
    "\n".intercalate <|
      (patch.boxes.map fun box => s!"{box.id}: {describe box}") ++
        patch.connections.map describeConnection

/-- The text of an attribute with its value. -/
def showAttribute (box : Box) (name : String) : String :=
  s!"{name} = " ++ String.ofList (Words.write (box.sheet.value name))

/-- The box that has an attribute. -/
def boxWith (console : Console) (id : Nat) (name : String) : Except ConsoleError Box :=
  match console.patch.box? id with
  | none => .error (.patch (.boxNotFound id))
  | some box => if box.sheet.has name then .ok box else .error (.unknownAttribute id name)

/-- Change the patch, and reply if that went well. -/
def edit (console : Console) (change : Patch → Except PatchError Patch) (reply : String) :
    Console × Except ConsoleError Answer :=
  let (studio, result) := console.studio.editPatch console.number change
  ({ console with studio }, (result.mapError .patch).map fun _ => .text reply)

/-- Show an attribute. -/
def get (console : Console) (id : Nat) (name : String) : Console × Except ConsoleError Answer :=
  (console, (console.boxWith id name).map fun box => .text (showAttribute box name))

/-- Start signal processing, after stopping it. A cycle of signals is no obstacle. -/
def start (console : Console) (sampleRate blockSize : Nat) :
    Console × Except ConsoleError Answer :=
  let stopped := console.stopDriving
  if sampleRate = 0 || blockSize = 0 then (stopped, .error (.rendering .notPositive))
  else
    let (patch, _) := stopped.patch.start (Float32.ofNat sampleRate) blockSize
    ({ stopped.setPatch patch with driving := true },
      .ok (.text s!"dsp on: {sampleRate} Hz, {blockSize} samples"))

/-- Carry out a command that has nothing to do with files. -/
def perform (console : Console) (command : Command) : Console × Except ConsoleError Answer :=
  match command with
  | .create text =>
    let (studio, result) := console.studio.createFromText console.number text
    let console := { console with studio }
    match result with
    | .error error => (console, .error (.patch error))
    | .ok id =>
      let description := ((console.patch.box? id).map describe).getD ""
      (console, .ok (.text s!"{id}: {description}"))
  | .remove id => console.edit (fun patch => patch.remove id) s!"removed {id}"
  | .connect source outlet target inlet =>
    console.edit (fun patch => patch.connect source outlet target inlet)
      s!"connected {source}:{outlet} -> {target}:{inlet}"
  | .disconnect source outlet target inlet =>
    console.edit (fun patch => patch.disconnect source outlet target inlet)
      s!"disconnected {source}:{outlet} -> {target}:{inlet}"
  | .send id inlet atoms =>
    let (studio, result) := console.studio.send ⟨console.number, id⟩ inlet atoms
    ({ console with studio }, (result.mapError .patch).map fun understood =>
      .text (if understood then ""
        else s!"{id} ignored '" ++ String.ofList (Words.write atoms) ++ "'"))
  | .set id name atoms =>
    match console.boxWith id name with
    | .error error => (console, .error error)
    | .ok _ =>
      match console.patch.setAttribute id name atoms with
      | .error error => (console, .error (.patch error))
      | .ok (patch, _) => (console.setPatch patch).get id name
  | .get id name => console.get id name
  | .list => (console, .ok (.text (listing console.patch)))
  | .objects =>
    let names := console.studio.catalog.keys.mergeSort fun a b => decide (a ≤ b)
    (console, .ok (.text (" ".intercalate names)))
  | .start sampleRate? blockSize? =>
    console.start (sampleRate?.getD console.settings.sampleRate)
      (blockSize?.getD console.settings.blockSize)
  | .stop => (console.stopDriving, .ok (.text "dsp off"))
  | .help => (console, .ok (.text Command.helpText))
  | .quit => (console.stopDriving, .ok .quit)
  | .nothing | .save _ | .load _ => (console, .ok (.text ""))

/-- Replace the patch by a saved one, and count its boxes. -/
def replace (console : Console) (saved : Dico) : Console × Nat :=
  let (studio, count) := console.studio.readPatch console.number saved
  ({ console with studio }, count)

variable {m : Type → Type} [Monad m] [Storage m]

/-- Carry out a command. -/
def execute (console : Console) (command : Command) : m (Console × Except ConsoleError Answer) := do
  match command with
  | .save path =>
    match ← PatchFile.save path console.patch.write with
    | .error error => return (console, .error (.file error))
    | .ok () =>
      return (console, .ok (.text s!"saved {console.patch.boxes.length} boxes to {path}"))
  | .load name =>
    match ← PatchFile.find console.userFolder name with
    | none => return (console, .error (.patchNotFound name))
    | some path =>
      match ← PatchFile.load path with
      | .error error => return (console, .error (.file error))
      | .ok saved =>
        let (console, count) := console.replace saved
        return (console, .ok (.text s!"loaded {count} boxes from {path}"))
  | command => return console.perform command

/-- Carry out the command in a line. -/
def executeLine (console : Console) (line : List Char) :
    m (Console × Except ConsoleError Answer) := do
  match Command.read line with
  | .error error => return (console, .error error)
  | .ok command => console.execute command

/-- Let an amount of time pass. -/
def pass (console : Console) (wait : Nat) : Console :=
  { console with studio := console.studio.pass wait }

/-- Take the lines that were printed since the last time. -/
def takePrinted (console : Console) : Console × List String :=
  ({ console with studio := { console.studio with printed := [], events := [] } },
    console.studio.printed)

end Console

end Patchbay
