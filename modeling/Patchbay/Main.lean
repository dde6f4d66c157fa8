import Patchbay.CommandLine.Program

/-!
# The program on real files

Errands run on the files of the machine. The console works line by line as its input arrives, and
the time that passes between two lines passes in the patch too.
-/

namespace Patchbay

/-- What keeps an operation on real files from being done. -/
def AccessProblem.ofError : IO.Error → AccessProblem
  | .noFileOrDirectory .. => .missing
  | error => .other (toString error)

/-- Do something with real files, and tell what kept it from being done. -/
def attemptIO {α : Type} (act : IO α) : IO (Except AccessProblem α) := do
  match ← act.toBaseIO with
  | .ok result => return .ok result
  | .error error => return .error (.ofError error)

instance : Storage IO where
  status path := do
    match ← attemptIO (do (← IO.FS.realPath path).metadata) with
    | .error _ => return .missing
    | .ok found => return match found.type with
      | .dir => .folder
      | .file => .file
      | _ => .missing
  readFile path := attemptIO do return (← IO.FS.readBinFile path).toList
  writeFile path content := attemptIO (IO.FS.writeBinFile path ⟨content.toArray⟩)
  makeFolder path := attemptIO (IO.FS.createDirAll path)
  entries path := do
    match ← attemptIO (do (← IO.FS.realPath path).readDir) with
    | .error _ => return []
    | .ok found => return (found.map fun entry => entry.fileName).toList

/-- The folder of the user's files. -/
def findUserFolder : IO String := do
  let base ← match ← IO.getEnv "XDG_CONFIG_HOME", ← IO.getEnv "HOME" with
    | some folder, _ => pure folder
    | none, some home => pure (Path.join home ".config")
    | none, none => pure "."
  return Path.join base PatchFile.programFolder

/-- Print a report. -/
def printReport (report : Report) : IO UInt32 := do
  report.output.forM fun line => IO.println line
  report.errors.forM fun line => IO.eprintln line
  return report.code.toUInt32

/-- Carry out console commands until the input ends or the console is left. -/
partial def converse (input output : IO.FS.Stream) (prompts : Bool) (before : Nat)
    (console : Console) : IO Unit := do
  if prompts then
    output.putStr "> "
    output.flush
  let line ← input.getLine
  if line.isEmpty then return
  let now ← IO.monoNanosNow
  let (console, printed, goesOn) ← Program.consoleLine (console.pass (now - before)) line.toList
  printed.forM fun text => output.putStrLn text
  output.flush
  if goesOn then converse input output prompts now console

/-- Open the console on standard input. -/
def runConsole (settings : EngineSettings) (userFolder : String) (patch? : Option String)
    (quiet : Bool) : IO UInt32 := do
  match ← Program.openConsole settings userFolder patch? with
  | .error failure => printReport (.failed [] failure)
  | .ok console =>
    let input ← IO.getStdin
    let output ← IO.getStdout
    let prompts := !quiet && (← input.isTty)
    if prompts then output.putStrLn "kumiko console, 'help' lists commands"
    converse input output prompts (← IO.monoNanosNow) console
    return 0

end Patchbay

/-- Run the program. -/
def main (arguments : List String) : IO UInt32 := do
  let userFolder ← Patchbay.findUserFolder
  match Patchbay.Arguments.read arguments with
  | .errand settings? (.console patch? quiet) =>
    match ← Patchbay.Program.loadSettings userFolder settings? with
    | .error error => Patchbay.printReport (.failed [] (.ofSettings error))
    | .ok settings => Patchbay.runConsole settings userFolder patch? quiet
  | _ => Patchbay.printReport (← Patchbay.Program.invoke ⟨userFolder, ""⟩ arguments)
