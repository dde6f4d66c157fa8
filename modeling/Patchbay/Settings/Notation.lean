import Patchbay.Settings.Basic
import Patchbay.Toml.Reader

/-!
# Settings as text

Settings are kept as a TOML document with a field for each. Fields that are missing have their
defaults, and fields of other names are ignored.
-/

namespace Patchbay

/-- Why settings cannot be read. -/
inductive SettingsError where
  /-- The text is no TOML document, or a field has a value of a wrong kind. -/
  | unreadable
  | outOfRange (problem : SettingProblem)
deriving DecidableEq, Repr, Inhabited

/-- How the reason reads. -/
def SettingsError.message : SettingsError → String
  | unreadable => "failed to parse TOML"
  | outOfRange problem => problem.message

namespace EngineSettings

/-- A whole number below a bound; nothing if the field has another value. -/
def number? (document : Toml.Entries) (field : String) (bound default : Nat) : Option Nat :=
  match document.get? field with
  | none => some default
  | some (.integer value) =>
    if 0 ≤ value.toInt ∧ value.toInt < bound then some value.toInt.toNat else none
  | some _ => none

/-- A text that may be missing; nothing if the field has another value. -/
def text? (document : Toml.Entries) (field : String) : Option (Option String) :=
  match document.get? field with
  | none => some none
  | some (.text value) => some (some value)
  | some _ => none

/-- The settings in a document, in range or not. -/
def ofDocument? (document : Toml.Entries) : Option EngineSettings := do
  let other : EngineSettings := {}
  let sampleRate ← number? document sampleRateName UInt32.size other.sampleRate
  let blockSize ← number? document blockSizeName UInt64.size other.blockSize
  let inputChannels ← number? document inputChannelsName UInt64.size other.inputChannels
  let outputChannels ← number? document outputChannelsName UInt64.size other.outputChannels
  let dispatchDepth ← number? document dispatchDepthName UInt64.size other.dispatchDepth
  let logFilter? ← text? document logFilterName
  return { sampleRate, blockSize, inputChannels, outputChannels, dispatchDepth, logFilter? }

/-- Read settings, which must be in range. -/
def read (text : List Char) : Except SettingsError EngineSettings :=
  match (Toml.read? text).bind ofDocument? with
  | none => .error .unreadable
  | some settings =>
    match settings.problem? with
    | some problem => .error (.outOfRange problem)
    | none => .ok settings

/-- A line of a document. -/
def line (field : String) (value : List Char) : List Char :=
  field.toList ++ " = ".toList ++ value ++ ['\n']

/-- The settings as a document. Documents have no numbers beyond 63 bits. -/
def write? (settings : EngineSettings) : Option (List Char) :=
  let numbers : List (String × Nat) := [
    (sampleRateName, settings.sampleRate),
    (blockSizeName, settings.blockSize),
    (inputChannelsName, settings.inputChannels),
    (outputChannelsName, settings.outputChannels),
    (dispatchDepthName, settings.dispatchDepth)]
  if numbers.all fun (_, value) => (Long.ofInt? value).isSome then
    some <| (numbers.flatMap fun (field, value) => line field (Numeral.nat value)) ++
      match settings.logFilter? with
      | some filter => line logFilterName (Toml.Text.write filter.toList)
      | none => []
  else none

end EngineSettings

end Patchbay
