import Patchbay.Settings.Notation
import Patchbay.Storage.Basic

/-!
# The settings file

Settings are kept in a file of the user's folder. Where it is missing, there are the defaults.
-/

namespace Patchbay

/-- Why settings cannot be had from a file or put into one. -/
inductive SettingsFileError where
  | file (error : FileError)
  | content (error : SettingsError)
  /-- A number is too large to be written. -/
  | unwritable
deriving DecidableEq, Repr, Inhabited

namespace SettingsFileError

/-- How the error reads. -/
def message : SettingsFileError → String
  | file error => error.message
  | content error => error.message
  | unwritable => "failed to serialize TOML: out-of-range value for i64 type"

/-- The message of what caused the error, if anything did. -/
def cause? : SettingsFileError → Option String
  | file error => some error.problem.message
  | _ => none

end SettingsFileError

namespace SettingsFile

/-- The settings file in the user's folder. -/
def path (userFolder : String) : String := Path.join userFolder "engine.toml"

variable {m : Type → Type} [Monad m] [Storage m]

/-- Read settings. -/
def load (path : String) : m (Except SettingsFileError EngineSettings) := do
  match ← Storage.readText path with
  | .error error => return .error (.file error)
  | .ok text => return (EngineSettings.read text.toList).mapError .content

/-- Read settings if there is anything at the path, and take the defaults otherwise. -/
def loadOrDefault (path : String) : m (Except SettingsFileError EngineSettings) := do
  if ← Storage.isPresent path then load path else return .ok {}

/-- Write settings, and make the folder they are in. -/
def save (path : String) (settings : EngineSettings) : m (Except SettingsFileError Unit) := do
  match settings.write? with
  | none => return .error .unwritable
  | some text => return (← Storage.writeText path (String.ofList text)).mapError .file

end SettingsFile

end Patchbay
