import Patchbay.Number.Bytes
import Patchbay.Storage.Path

/-!
# Storage

Files and folders, seen through the few operations that are needed. The operations are those of a
monad, so that what is done with files can be run on real ones and reasoned about on a `Disk`.
-/

namespace Patchbay

/-- What stands at a path. -/
inductive Status where
  | missing
  | folder
  | file
deriving DecidableEq, Repr, Inhabited

/-- Why a file or folder cannot be accessed. -/
inductive AccessProblem where
  | missing
  /-- Something on the way to it is not a folder. -/
  | notFolder
  | isFolder
  | notText
  /-- It is too long, or cannot be one at all. -/
  | badPath
  | other (reason : String)
deriving DecidableEq, Repr, Inhabited

/-- How the problem reads. -/
def AccessProblem.message : AccessProblem → String
  | missing => "No such file or directory (os error 2)"
  | notFolder => "Not a directory (os error 20)"
  | isFolder => "Is a directory (os error 21)"
  | notText => "stream did not contain valid UTF-8"
  | badPath => "File name too long (os error 36)"
  | other reason => reason

/-- Files and folders at paths. -/
class Storage (m : Type → Type) where
  status (path : String) : m Status
  readFile (path : String) : m (Except AccessProblem Bytes)
  writeFile (path : String) (content : Bytes) : m (Except AccessProblem Unit)
  /-- Make a folder, and those it is in. -/
  makeFolder (path : String) : m (Except AccessProblem Unit)
  /-- The names of what is in a folder. -/
  entries (path : String) : m (List String)

/-- Why a file could not be read or written. -/
inductive FileError where
  | read (path : String) (problem : AccessProblem)
  | write (path : String) (problem : AccessProblem)
  | makeFolder (path : String) (problem : AccessProblem)
deriving DecidableEq, Repr, Inhabited

namespace FileError

/-- The problem that caused the error. -/
def problem : FileError → AccessProblem
  | read _ problem | write _ problem | makeFolder _ problem => problem

/-- How the error reads. -/
def message : FileError → String
  | read path problem => s!"failed to read file '{path}': {problem.message}"
  | write path problem => s!"failed to write file '{path}': {problem.message}"
  | makeFolder path problem => s!"failed to create directory '{path}': {problem.message}"

end FileError

namespace Bytes

/-- The bytes of a text. -/
def ofText (text : String) : Bytes := text.toUTF8.toList

/-- The text that bytes stand for, if they stand for one. -/
def toText? (bytes : Bytes) : Option String := String.fromUTF8? ⟨bytes.toArray⟩

end Bytes

namespace Storage

variable {m : Type → Type} [Monad m] [Storage m]

/-- Decide whether a path is that of a file. -/
def isFile (path : String) : m Bool := do return (← status path) == .file

/-- Decide whether there is anything at a path. -/
def isPresent (path : String) : m Bool := do return (← status path) != .missing

/-- Read a file that holds text. -/
def readText (path : String) : m (Except FileError String) := do
  match ← readFile path with
  | .error problem => return .error (.read path problem)
  | .ok bytes =>
    match Bytes.toText? bytes with
    | some text => return .ok text
    | none => return .error (.read path .notText)

/-- Write a file that holds text, and make its folder if that is missing. -/
def writeText (path text : String) : m (Except FileError Unit) := do
  let write : m (Except FileError Unit) := do
    return (← writeFile path (Bytes.ofText text)).mapError (.write path)
  match Path.parent? path with
  | none => write
  | some folder =>
    if folder.isEmpty then write
    else if ← isPresent folder then write
    else
      match ← makeFolder folder with
      | .error problem => return .error (.makeFolder folder problem)
      | .ok () => write

end Storage

end Patchbay
