import Patchbay.Console.Command

/-!
# Command-line arguments

The arguments name an errand and say how it is to be run. Options may stand anywhere behind the
name of the errand, in a long form or a short one, and two dashes end them. An option is given at
most once. The first argument that is not understood decides, unless help was asked for before it.
-/

namespace Patchbay

/-- Where a patch is found, and how it is to be run. -/
structure PatchChoice where
  patch : String
  sampleRate? : Option Nat := none
  blockSize? : Option Nat := none
deriving Repr, Inhabited

/-- How a patch is to be rendered to a file. -/
structure RenderChoice extends PatchChoice where
  output : String
  seconds : Float := 1.0
  input? : Option String := none
  bits : Nat := 32
  quiet : Bool := false
deriving Repr, Inhabited

/-- What the program is asked to do. -/
inductive Errand where
  /-- Carry out console commands, on a saved patch or an empty one. -/
  | console (patch? : Option String) (quiet : Bool)
  | render (choice : RenderChoice)
  /-- Run a patch in real time, until a time is over or the program is stopped. -/
  | run (choice : PatchChoice) (seconds? : Option Float)
  /-- List the boxes that can be built, or show one. -/
  | objects (text? : Option String)
  | patches
deriving Repr, Inhabited

/-- A part of the program that help is given on. -/
inductive Topic where
  | program
  | console
  | render
  | run
  | objects
  | patches
  | help
deriving DecidableEq, Repr, Inhabited

/-- What the arguments ask for. -/
inductive Invocation where
  | errand (settings? : Option String) (errand : Errand)
  | help (topic : Topic)
  | version
  | refused
deriving Repr, Inhabited

/-- An option of an errand. -/
structure Switch where
  name : String
  letter? : Option Char := none
  /-- Which values may follow; nothing if none does. -/
  accepts? : Option (String → Bool) := none

/-- The arguments taken so far. Switches without a value are noted with an empty one. -/
structure Arguments where
  values : Keyed String := []
  positionals : List String := []
deriving Repr, Inhabited

namespace Arguments

/-- What has become of arguments. -/
inductive Scan where
  | taken (arguments : Arguments)
  | help
  | refused
deriving Inhabited

/-- A number below a bound. -/
def number? (bound : Nat) (text : String) : Option Nat :=
  (Command.number bound text.toList).toOption

/-- A number below a bound, read as a signed one: zero may have a minus sign in front. -/
def signedNumber? (bound : Nat) (text : String) : Option Nat :=
  match text.toList with
  | '-' :: digits => if !digits.isEmpty && digits.all (· == '0') then some 0 else none
  | _ => number? bound text

/-- The path of a file, which has at least one character. -/
def isPath (text : String) : Bool := !text.isEmpty

/-- The file with the settings. -/
def settingsSwitch : Switch := { name := "config", accepts? := some isPath }

/-- Say less. -/
def quietSwitch : Switch := { name := "quiet", letter? := some 'q' }

/-- The sample rate in place of that of the settings. -/
def sampleRateSwitch : Switch :=
  { name := "sample-rate", accepts? := some fun text => (signedNumber? UInt32.size text).isSome }

/-- The block size in place of that of the settings. -/
def blockSizeSwitch : Switch :=
  { name := "block-size", accepts? := some fun text => (number? UInt64.size text).isSome }

/-- Decide whether a text is a number of seconds. -/
def isSeconds (text : String) : Bool := (Numeral.readDouble? text.toList).isSome

/-- Note a switch with its value, if both are in order. -/
def note (switch : Switch) (value : String) (arguments : Arguments) : Option Arguments :=
  let fits := match switch.accepts? with
    | some accepts => accepts value
    | none => true
  if fits && !arguments.values.has switch.name then
    some { arguments with values := arguments.values.set switch.name value }
  else none

/-- Decide whether an argument can follow a switch as its value. -/
def isValue (argument : String) : Bool :=
  argument == "-" || argument.toList.head? != some '-'

/-- What one argument does. -/
inductive Step where
  | taken (arguments : Arguments)
  /-- The next argument is the value of a switch. -/
  | waiting (switch : Switch) (arguments : Arguments)
  /-- No more switches follow. -/
  | ended
  | help
  | refused

/-- Take a switch with its value, or refuse both. -/
def takeValue (switch : Switch) (value : String) (arguments : Arguments) : Step :=
  match note switch value arguments with
  | some arguments => .taken arguments
  | none => .refused

/-- Take a group of letters. The value of a switch may stand right behind its letter. -/
def takeLetters (switches : List Switch) : List Char → Arguments → Step
  | [], arguments => .taken arguments
  | letter :: rest, arguments =>
    match switches.find? fun switch => switch.letter? == some letter with
    | none => if letter = 'h' then .help else .refused
    | some switch =>
      if switch.accepts?.isSome then
        match rest with
        | [] => .waiting switch arguments
        | '=' :: value | value => takeValue switch (String.ofList value) arguments
      else
        match note switch "" arguments with
        | some arguments => takeLetters switches rest arguments
        | none => .refused

/-- Take a switch in its long form. Its value may stand behind an equals sign. -/
def takeLong (switches : List Switch) (long : List Char) (arguments : Arguments) : Step :=
  let name := String.ofList (long.takeWhile (· != '='))
  let attached? := (long.dropWhile (· != '=')).tail?.map String.ofList
  match switches.find? fun switch => switch.name == name with
  | none => if name == "help" && attached?.isNone then .help else .refused
  | some switch =>
    match switch.accepts?.isSome, attached? with
    | true, some value => takeValue switch value arguments
    | true, none => .waiting switch arguments
    | false, some _ => .refused
    | false, none => takeValue switch "" arguments

/-- Take an argument that is no switch, as one of at most `room`. -/
def takePositional (room : Nat) (argument : String) (arguments : Arguments) : Step :=
  if arguments.positionals.length < room then
    .taken { arguments with positionals := arguments.positionals ++ [argument] }
  else .refused

/-- Take one argument. -/
def takeArgument (switches : List Switch) (room : Nat) (argument : String)
    (arguments : Arguments) : Step :=
  match argument.toList with
  | ['-', '-'] => .ended
  | '-' :: '-' :: long => takeLong switches long arguments
  | '-' :: letter :: letters => takeLetters switches (letter :: letters) arguments
  | _ => takePositional room argument arguments

/-- Take arguments in order, while perhaps a switch waits for its value. The flag tells whether
switches have ended. -/
def scan (switches : List Switch) (room : Nat) :
    Option Switch → Bool → List String → Arguments → Scan
  | none, _, [], arguments => .taken arguments
  | some _, _, [], _ => .refused
  | some switch, ended, value :: rest, arguments =>
    match if isValue value then note switch value arguments else none with
    | some arguments => scan switches room none ended rest arguments
    | none => .refused
  | none, ended, argument :: rest, arguments =>
    match if ended then takePositional room argument arguments
      else takeArgument switches room argument arguments with
    | .taken arguments => scan switches room none ended rest arguments
    | .waiting switch arguments => scan switches room (some switch) ended rest arguments
    | .ended => scan switches room none true rest arguments
    | .help => .help
    | .refused => .refused

/-- The value of a switch that was given. -/
def value? (arguments : Arguments) (switch : Switch) : Option String :=
  arguments.values.get? switch.name

/-- The patch that was chosen, and how it is to be run. -/
def patchChoice? (arguments : Arguments) : Option PatchChoice :=
  arguments.positionals.head?.map fun patch =>
    { patch
      sampleRate? := (arguments.value? sampleRateSwitch).bind (signedNumber? UInt32.size)
      blockSize? := (arguments.value? blockSizeSwitch).bind (number? UInt64.size) }

/-- The file that is written. -/
def outputSwitch : Switch := { name := "output", letter? := some 'o', accepts? := some isPath }

/-- How long a rendering is. -/
def secondsSwitch : Switch := { name := "seconds", letter? := some 's', accepts? := some isSeconds }

/-- The file that is fed to the inputs. -/
def inputSwitch : Switch := { name := "input", letter? := some 'i', accepts? := some isPath }

/-- The depth of written samples. -/
def bitsSwitch : Switch :=
  { name := "bit-depth", accepts? := some fun text => (signedNumber? UInt16.size text).isSome }

/-- How long a patch runs. -/
def durationSwitch : Switch := { name := "duration", accepts? := some isSeconds }

/-- The kinds of errands by the name that asks for them. -/
def topics : Keyed Topic := [("console", .console), ("render", .render), ("run", .run),
  ("objects", .objects), ("patches", .patches), ("help", .help)]

/-- The switches of a kind of errand. -/
def switches : Topic → List Switch
  | .console => [settingsSwitch, quietSwitch]
  | .render => [settingsSwitch, outputSwitch, secondsSwitch, inputSwitch, sampleRateSwitch,
      blockSizeSwitch, bitsSwitch, quietSwitch]
  | .run => [settingsSwitch, sampleRateSwitch, blockSizeSwitch, durationSwitch]
  | .objects | .patches => [settingsSwitch]
  | .program | .help => []

/-- How many arguments besides switches a kind of errand takes. -/
def room : Topic → Nat
  | .patches | .program => 0
  | _ => 1

/-- The errand of a kind, if everything it needs was given. -/
def errand? (topic : Topic) (arguments : Arguments) : Option Errand :=
  let quiet := (arguments.value? quietSwitch).isSome
  let first? := arguments.positionals.head?
  let seconds? (switch : Switch) : Option Float :=
    (arguments.value? switch).bind fun text => Numeral.readDouble? text.toList
  match topic with
  | .console => some (.console first? quiet)
  | .render => do
    let choice ← arguments.patchChoice?
    let output ← arguments.value? outputSwitch
    return .render { choice with
      output
      seconds := (seconds? secondsSwitch).getD 1.0
      input? := arguments.value? inputSwitch
      bits := ((arguments.value? bitsSwitch).bind (signedNumber? UInt16.size)).getD 32
      quiet }
  | .run => arguments.patchChoice?.map fun choice => .run choice (seconds? durationSwitch)
  | .objects => some (.objects first?)
  | .patches => some .patches
  | .program | .help => none

/-- What a call for help is about. -/
def helpOn : List String → Invocation
  | [] => .help .program
  | [name] =>
    match topics.get? name with
    | some topic => .help topic
    | none => .refused
  | _ => .refused

/-- Take over the settings file that still waits. It must be a path, and no other one may have been
given. -/
def settle : (settings? waiting? : Option String) → Option (Option String)
  | settings?, none => some settings?
  | none, some path => if isPath path then some (some path) else none
  | some _, some _ => none

/-- What the arguments behind the name of an errand ask for. A settings file that still waits is
looked at last, so help on the errand comes before it. -/
def invocation (settings? waiting? : Option String) (topic : Topic) (rest : List String) :
    Invocation :=
  if topic = .help then helpOn rest
  else
    match scan (switches topic) (room topic) none false rest {} with
    | .help => .help topic
    | .refused => .refused
    | .taken arguments =>
      match settle settings? waiting?, errand? topic arguments with
      | some settings?, some errand =>
        .errand ((arguments.value? settingsSwitch).orElse fun _ => settings?) errand
      | _, _ => .refused

/-- What the arguments of the program ask for, given the settings file that was taken and the one
that waits. The file may be given before the name of the errand. If it is an argument of its own,
it waits for the next switch to be looked at. -/
def readFrom : (settings? waiting? : Option String) → List String → Invocation
  | _, _, [] => .refused
  | settings?, waiting?, argument :: rest =>
    match topics.get? argument with
    | some topic => invocation settings? waiting? topic rest
    | none =>
      match settle settings? waiting? with
      | none => .refused
      | some settings? =>
        if argument == "--help" || argument.startsWith "-h" then .help .program
        else if argument == "--version" || argument.startsWith "-V" then .version
        else if argument.startsWith "--config=" then
          match settle settings? (some (argument.drop "--config=".length).toString) with
          | some settings? => readFrom settings? none rest
          | none => .refused
        else if argument == "--config" then
          match rest with
          | value :: rest => if isValue value then readFrom settings? (some value) rest else .refused
          | [] => .refused
        else .refused

/-- What the arguments of the program ask for. -/
def read : List String → Invocation := readFrom none none

end Arguments

end Patchbay
