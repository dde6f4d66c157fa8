import Patchbay.CommandLine.Help
import Patchbay.CommandLine.Listing
import Patchbay.Console.Session
import Patchbay.Sound.Wav.Channels
import Patchbay.Storage.SettingsFile

/-!
# The program

From arguments and standard input to what is printed and the exit code: zero if all went well, one
if the errand failed, and two if the arguments were refused. What was printed before a failure
stays.
-/

namespace Patchbay

/-- What a run of the program leaves behind, besides files. -/
structure Report where
  code : Nat := 0
  output : List String := []
  errors : List String := []
deriving DecidableEq, Repr, Inhabited

/-- Why an errand failed, and what caused that. -/
structure Failure where
  message : String
  cause? : Option String := none
deriving DecidableEq, Repr, Inhabited

namespace Failure

/-- The lines that report a failure. -/
def lines (failure : Failure) : List String :=
  s!"Error: {failure.message}" ::
    match failure.cause? with
    | some cause => ["", "Caused by:", s!"    {cause}"]
    | none => []

/-- A failure with a file. -/
def ofFile (error : FileError) : Failure := ⟨error.message, some error.problem.message⟩

/-- A failure with the settings file. -/
def ofSettings (error : SettingsFileError) : Failure := ⟨error.message, error.cause?⟩

end Failure

namespace Report

/-- A report on an errand that printed some lines and then failed. -/
def failed (output : List String) (failure : Failure) : Report :=
  { code := 1, output, errors := failure.lines }

end Report

/-- Where the program runs: the folder of the user's files, and what is on standard input. -/
structure Setting where
  userFolder : String
  input : String := ""
deriving Repr, Inhabited

namespace Program

variable {m : Type → Type} [Monad m] [Storage m]

/-- The settings in a given file, which must exist, or those of the user. -/
def loadSettings (userFolder : String) :
    Option String → m (Except SettingsFileError EngineSettings)
  | some path => SettingsFile.load path
  | none => SettingsFile.loadOrDefault (SettingsFile.path userFolder)

/-- Open a saved patch. -/
def openPatch (settings : EngineSettings) (userFolder name : String) :
    m (Except Failure Console) := do
  match ← PatchFile.find userFolder name with
  | none =>
    return .error
      ⟨s!"Patch '{name}' not found. Use 'kumiko patches' to see saved patches.", none⟩
  | some path =>
    match ← PatchFile.load path with
    | .error error => return .error (.ofFile error)
    | .ok saved => return .ok ((Console.openEmpty settings userFolder).replace saved).1

/-- Open the console on a saved patch or an empty one. -/
def openConsole (settings : EngineSettings) (userFolder : String) :
    Option String → m (Except Failure Console)
  | some name => openPatch settings userFolder name
  | none => return .ok (Console.openEmpty settings userFolder)

/-- Carry out a line at the console. The result is the lines to be printed, and whether the console
goes on. -/
def consoleLine (console : Console) (line : List Char) : m (Console × List String × Bool) := do
  let (console, result) ← console.executeLine line
  let (console, printed) := console.takePrinted
  match result with
  | .ok (.text reply) =>
    return (console, printed ++ (if reply.isEmpty then [] else [reply]), true)
  | .ok .quit => return (console, printed, false)
  | .error error => return (console, printed ++ [s!"error: {error.message}"], true)

/-- Carry out lines at the console until it is left, and collect the lines to be printed. -/
def consoleLines : List (List Char) → Console → m (List String)
  | [], _ => return []
  | line :: rest, console => do
    let (console, printed, goesOn) ← consoleLine console line
    if goesOn then return printed ++ (← consoleLines rest console) else return printed

/-- The depths that a rendering can have. -/
def renderDepths : List Nat := [16, 24, 32]

/-- The largest magnitude among samples; what is not a number does not count. -/
def peak (channels : List (Buffer Sample)) : Float32 :=
  channels.flatten.foldl (fun most sample =>
    let magnitude := sample.toSingle.abs
    if magnitude > most then magnitude else most) 0.0

/-- The text of a magnitude, with three decimals. -/
def magnitudeText (magnitude : Float32) : String :=
  match Binary.ofSingle? magnitude with
  | some value => String.ofList (Numeral.fixed 3 value)
  | none => "inf"

/-- The failure of a sound file. -/
def soundFailure (error : WavError) : Failure := ⟨error.message, none⟩

/-- Read a sound file, and say so. Without one there is nothing to be fed. -/
def readInput : Option String → m (Except WavError (List String × List (Buffer Sample)))
  | none => return .ok ([], [])
  | some path => do
    match ← Storage.readFile path with
    | .error _ => return .error .inaccessible
    | .ok bytes =>
      return (Wav.read bytes).map fun (channels, spec) =>
        ([s!"Input: {path} ({spec.channels} channel(s), {spec.sampleRate} Hz)"], channels)

/-- Render a patch to a sound file. -/
def render (settings : EngineSettings) (userFolder : String) (choice : RenderChoice) :
    m Report := do
  if !renderDepths.contains choice.bits then
    return .failed [] ⟨s!"Unsupported bit depth {choice.bits} (use 16, 24 or 32)", none⟩
  match ← openPatch settings userFolder choice.patch with
  | .error failure => return .failed [] failure
  | .ok console =>
    match ← readInput choice.input? with
    | .error error => return .failed [] (soundFailure error)
    | .ok (lines, inputs) =>
      let rendering : RenderSettings :=
        { seconds := choice.seconds
          sampleRate := choice.sampleRate?.getD settings.sampleRate
          blockSize := choice.blockSize?.getD settings.blockSize }
      let seconds := String.ofList (Numeral.double rendering.seconds)
      let announced := lines ++
        [s!"Rendering {seconds} s at {rendering.sampleRate} Hz, " ++
          s!"{rendering.blockSize} samples per block..."]
      match console.patch.render Machine.processor rendering inputs with
      | .error error => return .failed announced ⟨error.message, none⟩
      | .ok (_, channels) =>
        let spec := { WavSpec.ofRendering rendering channels.length with bits := choice.bits }
        match Wav.write spec channels with
        | .error error => return .failed announced (soundFailure error)
        | .ok bytes =>
          match ← Storage.writeFile choice.output bytes with
          | .error _ => return .failed announced (soundFailure .inaccessible)
          | .ok () =>
            let level := magnitudeText (peak channels)
            return { output := announced ++
              [s!"Wrote {choice.output} ({channels.length} channel(s), peak {level})"] }

/-- Run a patch. There is no real time here, so this ends before the patch starts. -/
def run (settings : EngineSettings) (userFolder : String) (choice : PatchChoice) : m Report := do
  match ← openPatch settings userFolder choice.patch with
  | .error failure => return .failed [] failure
  | .ok _ =>
    let rate := choice.sampleRate?.getD settings.sampleRate
    let size := choice.blockSize?.getD settings.blockSize
    if rate = 0 || size = 0 then return .failed [] ⟨RenderError.notPositive.message, none⟩
    return .failed [] ⟨"real time is not available", none⟩

/-- Run an errand. -/
def runErrand (setting : Setting) (settings : EngineSettings) : Errand → m Report
  | .console patch? _ => do
    match ← openConsole settings setting.userFolder patch? with
    | .error failure => return .failed [] failure
    | .ok console => return { output := ← consoleLines (Text.lines setting.input.toList) console }
  | .render choice => render settings setting.userFolder choice
  | .run choice _ => run settings setting.userFolder choice
  | .objects none => return { output := Listing.ofCatalog Catalog.standard }
  | .objects (some text) =>
    match Listing.ofText? text with
    | .ok lines => return { output := lines }
    | .error name => return .failed [] ⟨s!"Unknown object: {name}", none⟩
  | .patches => do
    let folder := PatchFile.userPatches setting.userFolder
    return { output := Listing.ofPatches folder (← PatchFile.list folder) }

/-- Do what the arguments ask for. -/
def invoke (setting : Setting) (arguments : List String) : m Report := do
  match Arguments.read arguments with
  | .refused => return { code := 2 }
  | .version => return { output := [versionText] }
  | .help topic => return { output := topic.helpText }
  | .errand settings? errand =>
    match ← loadSettings setting.userFolder settings? with
    | .error error => return .failed [] (.ofSettings error)
    | .ok settings => runErrand setting settings errand

end Program

end Patchbay
