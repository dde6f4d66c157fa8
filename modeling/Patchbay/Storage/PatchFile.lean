import Patchbay.Dico.Notation
import Patchbay.Dico.Reader
import Patchbay.Storage.Basic

/-!
# Patch files

A patch is saved as a dico in text. The files of patches have an extension of their own, and those
of the user are kept in one folder, where a patch is found by its name.
-/

namespace Patchbay.PatchFile

/-- The extension of patch files. -/
def extension : String := "kumiko"

/-- The folder of the program among the user's settings. -/
def programFolder : String := "kumiko"

/-- The folder of the user's patches, in the user's folder. -/
def userPatches (userFolder : String) : String := Path.join userFolder "patches"

/-- A name with the extension of patch files, added unless it is there. -/
def withExtension (name : String) : String :=
  if Path.extension? name == some extension then name else s!"{name}.{extension}"

variable {m : Type → Type} [Monad m] [Storage m]

/-- Read a patch. Lines that are not well formed are left out. -/
def load (path : String) : m (Except FileError Dico) := do
  return (← Storage.readText path).map fun text => Notation.read text.toList

/-- Write a patch, and make the folder it is in. -/
def save (path : String) (patch : Dico) : m (Except FileError Unit) :=
  Storage.writeText path (String.ofList (Notation.text patch))

/-- Find a patch: a file at that path, or one of the user's patches of that name. -/
def find (userFolder name : String) : m (Option String) := do
  if ← Storage.isFile name then return some name
  let path := Path.join (userPatches userFolder) (withExtension name)
  return if ← Storage.isFile path then some path else none

/-- The patch files in a folder, in the order of their names. -/
def list (folder : String) : m (List String) := do
  let names := (← Storage.entries folder).filter fun name => Path.extension? name == some extension
  let paths := (names.mergeSort fun a b => decide (a ≤ b)).map (Path.join folder)
  paths.filterM Storage.isFile

end Patchbay.PatchFile
