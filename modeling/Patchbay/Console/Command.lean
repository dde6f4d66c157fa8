import Patchbay.Atom.Words
import Patchbay.Patch.Error
import Patchbay.Sound.Rendering
import Patchbay.Storage.Basic

/-!
# Console commands

A line of the console is a command with its arguments. Blank lines and comments ask for nothing. The
arguments are checked in order, and the first one that is wrong is reported.
-/

namespace Patchbay

/-- What a line of the console asks for. -/
inductive Command where
  | nothing
  | create (text : String)
  | remove (id : Nat)
  | connect (source outlet target inlet : Nat)
  | disconnect (source outlet target inlet : Nat)
  | send (id inlet : Nat) (atoms : List Atom)
  | set (id : Nat) (name : String) (atoms : List Atom)
  | get (id : Nat) (name : String)
  | list
  | objects
  /-- Start signal processing, with the rate and the block size of the settings where none is
  given. -/
  | start (sampleRate? blockSize? : Option Nat)
  | stop
  | save (path : String)
  | load (name : String)
  | help
  | quit
deriving Inhabited

/-- Why a line of the console has no effect. -/
inductive ConsoleError where
  | unknownCommand (word : String)
  | usage (form : String)
  | badIndex (word : String)
  | unknownAttribute (id : Nat) (name : String)
  | patchNotFound (name : String)
  | patch (error : PatchError)
  | file (error : FileError)
  | rendering (error : RenderError)
deriving Inhabited

/-- How the reason reads. -/
def ConsoleError.message : ConsoleError → String
  | unknownCommand word => s!"unknown command '{word}', try 'help'"
  | usage form => s!"usage: {form}"
  | badIndex word => s!"'{word}' is not a valid index"
  | unknownAttribute id name => s!"box {id} has no attribute '{name}'"
  | patchNotFound name => s!"patch '{name}' not found"
  | patch error => error.message
  | file error => error.message
  | rendering error => error.message

namespace Command

/-- Numbers of boxes are below this. -/
def idBound : Nat := UInt32.size

/-- Numbers of inlets, outlets and samples are below this. -/
def indexBound : Nat := UInt64.size

/-- Read a number below a bound: digits, and perhaps a plus sign in front. -/
def number (bound : Nat) (word : List Char) : Except ConsoleError Nat :=
  let digits := match word with
    | '+' :: rest => rest
    | _ => word
  let value := Numeral.natValue digits
  if !digits.isEmpty && digits.all Numeral.isDigit && value < bound then .ok value
  else .error (.badIndex (String.ofList word))

/-- The words of a command that takes a fixed number of them. -/
def exactly (count : Nat) (form : String) (rest : List Char) :
    Except ConsoleError (List (List Char)) :=
  let words := Text.words rest
  if words.length = count then .ok words else .error (.usage form)

/-- The first words of a command, and the text behind them. -/
def leading (form : String) :
    (count : Nat) → List Char → Except ConsoleError (List (List Char) × List Char)
  | 0, rest => .ok ([], Text.trimFront rest)
  | count + 1, rest => do
    let rest := Text.trimFront rest
    if rest.isEmpty then throw (.usage form)
    let (word, tail) := Text.splitAtBlank rest
    let (words, tail) ← leading form count tail
    return (word :: words, tail)

/-- The outlet and the inlet at the ends of a wire. -/
def ends (form : String) (rest : List Char) : Except ConsoleError (Nat × Nat × Nat × Nat) := do
  let [source, outlet, target, inlet] ← exactly 4 form rest | throw (.usage form)
  let source ← number idBound source
  let target ← number idBound target
  let outlet ← number indexBound outlet
  let inlet ← number indexBound inlet
  return (source, outlet, target, inlet)

/-- A number in place of which none may be given. -/
def optional (bound : Nat) : Option (List Char) → Except ConsoleError (Option Nat)
  | none => .ok none
  | some word => (number bound word).map some

/-- The command of a word and the text behind it. -/
def ofWord (word : String) (rest : List Char) : Except ConsoleError Command := do
  match word with
  | "create" =>
    if rest.isEmpty then throw (.usage "create <text>")
    return .create (String.ofList rest)
  | "remove" =>
    let form := "remove <id>"
    let [id] ← exactly 1 form rest | throw (.usage form)
    return .remove (← number idBound id)
  | "connect" =>
    let (source, outlet, target, inlet) ← ends "connect <id> <outlet> <id> <inlet>" rest
    return .connect source outlet target inlet
  | "disconnect" =>
    let (source, outlet, target, inlet) ← ends "disconnect <id> <outlet> <id> <inlet>" rest
    return .disconnect source outlet target inlet
  | "send" =>
    let form := "send <id> <inlet> <atoms...>"
    let ([id, inlet], message) ← leading form 2 rest | throw (.usage form)
    let id ← number idBound id
    let inlet ← number indexBound inlet
    return .send id inlet (Words.read message)
  | "set" =>
    let form := "set <id> <attribute> <atoms...>"
    let ([id, name], value) ← leading form 2 rest | throw (.usage form)
    return .set (← number idBound id) (String.ofList name) (Words.read value)
  | "get" =>
    let form := "get <id> <attribute>"
    let [id, name] ← exactly 2 form rest | throw (.usage form)
    return .get (← number idBound id) (String.ofList name)
  | "list" => return .list
  | "objects" => return .objects
  | "dsp" =>
    match Text.words rest with
    | first :: others =>
      if first = "on".toList then
        let sampleRate? ← optional UInt32.size others[0]?
        let blockSize? ← optional indexBound others[1]?
        return .start sampleRate? blockSize?
      else if first = "off".toList then return .stop
      else throw (.usage "dsp on [sample_rate] [block_size] | dsp off")
    | [] => throw (.usage "dsp on [sample_rate] [block_size] | dsp off")
  | "save" =>
    if rest.isEmpty then throw (.usage "save <path>")
    return .save (String.ofList rest)
  | "load" =>
    if rest.isEmpty then throw (.usage "load <path|name>")
    return .load (String.ofList rest)
  | "help" => return .help
  | "quit" | "exit" => return .quit
  | other => throw (.unknownCommand other)

/-- The command in a line. -/
def read (line : List Char) : Except ConsoleError Command :=
  let line := Text.trim line
  match line with
  | [] => .ok .nothing
  | '#' :: _ => .ok .nothing
  | _ =>
    let (word, rest) := Text.splitAtBlank line
    ofWord (String.ofList word) (Text.trim rest)

/-- The text that explains the commands. -/
def helpText : String := "\n".intercalate [
  "commands:",
  "  create <text>                          create a box, e.g. 'create osc~ 440'",
  "  remove <id>                            remove a box and its connections",
  "  connect <id> <outlet> <id> <inlet>     connect two boxes",
  "  disconnect <id> <outlet> <id> <inlet>  remove a connection",
  "  send <id> <inlet> <atoms...>           send a message into an inlet",
  "  set <id> <attribute> <atoms...>        set a box attribute",
  "  get <id> <attribute>                   show a box attribute",
  "  list                                   show boxes and connections",
  "  objects                                show available objects",
  "  dsp on [sample_rate] [block_size]      start signal processing",
  "  dsp off                                stop signal processing",
  "  save <path>                            write the patch to a file",
  "  load <path|name>                       replace the patch with a file",
  "  help                                   show this text",
  "  quit                                   leave the console"]

end Command

end Patchbay
