import Patchbay.Text.Blank

/-!
# Paths

Paths of files and folders, as text. Their parts are separated by slashes; empty parts and single
dots mean nothing. A path that starts with a slash is absolute. Paths and names have a greatest
length, and no path holds the character with the code zero.

The stem and the extension of a file name are what stands before and behind its last dot. A dot at
the very front does not count.
-/

namespace Patchbay.Path

/-- Decide whether a path is absolute. -/
def isAbsolute (path : String) : Bool := path.toList.head? == some '/'

/-- The largest number of bytes in a path. -/
def mostBytes : Nat := 4095

/-- The largest number of bytes in a name. -/
def mostNameBytes : Nat := 255

/-- Decide whether a text can be a path at all, be there something or not. -/
def isPossible (path : String) : Bool :=
  path.utf8ByteSize ≤ mostBytes && !path.toList.contains '\x00'

/-- The parts of a path. -/
def parts (path : String) : List String :=
  ((Text.split '/' path.toList).map String.ofList).filter fun part => part != "" && part != "."

/-- Decide whether a path can only mean a folder, because of how it ends. -/
def meansFolder (path : String) : Bool :=
  match (Text.split '/' path.toList).getLast? with
  | some last => last.isEmpty || last == ['.']
  | none => true

/-- The name of the file or folder, if the path ends in one. -/
def fileName? (path : String) : Option String :=
  match (parts path).getLast? with
  | some ".." => none
  | last? => last?

/-- The characters before the last dot and behind it, if there is a dot. -/
def splitAtLastDot (name : List Char) : Option (List Char × List Char) :=
  let behind := (name.reverse.takeWhile (· != '.')).reverse
  if behind.length < name.length then
    some (name.take (name.length - behind.length - 1), behind)
  else none

/-- The stem and the extension of a file name. -/
def stemAndExtension (name : String) : String × Option String :=
  match splitAtLastDot name.toList with
  | some (stem, extension) =>
    if stem.isEmpty then (name, none) else (String.ofList stem, some (String.ofList extension))
  | none => (name, none)

/-- The stem of the file name. -/
def stem? (path : String) : Option String :=
  (fileName? path).map fun name => (stemAndExtension name).1

/-- The extension of the file name. -/
def extension? (path : String) : Option String :=
  (fileName? path).bind fun name => (stemAndExtension name).2

/-- The folder of a path, if it has a part. For a single name this is the empty path. -/
def parent? (path : String) : Option String :=
  match parts path with
  | [] => none
  | all =>
    let front := if isAbsolute path then "/" else if path.startsWith "./" then "./" else ""
    let inner := String.intercalate "/" all.dropLast
    some (if inner.isEmpty && front == "./" then "." else front ++ inner)

/-- A path as seen from a folder. -/
def join (folder path : String) : String :=
  if isAbsolute path then path
  else if folder.isEmpty || folder.endsWith "/" then folder ++ path
  else folder ++ "/" ++ path

end Patchbay.Path
