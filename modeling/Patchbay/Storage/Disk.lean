import Patchbay.Storage.Basic

/-!
# Disks

Files and folders as a value. A disk lists what it holds by location, which is the list of names on
the way. Relative paths start where the disk does, and absolute ones in a place of their own, under
the name `/`. Whoever writes a file must see to it that its folder exists. Making folders can fail
half way, and those that were made then stay.
-/

namespace Patchbay

/-- A file with its content, or a folder. -/
inductive Entry where
  | folder
  | file (content : Bytes)
deriving DecidableEq, Repr, Inhabited

/-- Files and folders by location. -/
structure Disk where
  entries : List (List String × Entry) := []
deriving Repr, Inhabited

namespace Disk

/-- What is at a location. The start itself is a folder. -/
def at? (disk : Disk) (location : List String) : Option Entry :=
  if location.isEmpty || location == ["/"] then some .folder
  else (disk.entries.find? fun entry => entry.1 == location).map Prod.snd

/-- Put something at a location in place of what is there. -/
def put (disk : Disk) (location : List String) (entry : Entry) : Disk :=
  ⟨(disk.entries.filter fun other => other.1 != location) ++ [(location, entry)]⟩

/-- Follow parts of a path from a location. All but the last must lead to folders. -/
def follow (disk : Disk) : List String → List String → Except AccessProblem (List String)
  | [], location => .ok location
  | part :: rest, location =>
    match disk.at? location with
    | some .folder =>
      if part = ".." then
        if location.isEmpty then .error .missing else follow disk rest location.dropLast
      else if Path.mostNameBytes < part.utf8ByteSize then .error .badPath
      else follow disk rest (location ++ [part])
    | some (.file _) => .error .notFolder
    | none => .error .missing

/-- The location of a path. -/
def locate (disk : Disk) (path : String) : Except AccessProblem (List String) :=
  if path.isEmpty then .error .missing
  else if !Path.isPossible path then .error .badPath
  else disk.follow (Path.parts path) (if Path.isAbsolute path then ["/"] else [])

/-- What a path leads to. -/
def find (disk : Disk) (path : String) : Except AccessProblem Entry :=
  match disk.locate path with
  | .error problem => .error problem
  | .ok location =>
    match disk.at? location with
    | none => .error .missing
    | some .folder => .ok .folder
    | some (.file content) =>
      if Path.meansFolder path then .error .notFolder else .ok (.file content)

/-- What stands at a path. -/
def status (disk : Disk) (path : String) : Status :=
  match disk.find path with
  | .ok .folder => .folder
  | .ok (.file _) => .file
  | .error _ => .missing

/-- The content of a file. -/
def read (disk : Disk) (path : String) : Except AccessProblem Bytes :=
  match disk.find path with
  | .ok .folder => .error .isFolder
  | .ok (.file content) => .ok content
  | .error problem => .error problem

/-- Decide whether the folder of a location exists. -/
def hasFolderOf (disk : Disk) (location : List String) : Bool :=
  disk.at? location.dropLast == some .folder

/-- Write a file. -/
def write (disk : Disk) (path : String) (content : Bytes) : Except AccessProblem Disk :=
  match disk.locate path with
  | .error problem => .error problem
  | .ok location =>
    match disk.at? location with
    | some .folder => .error .isFolder
    | some (.file _) =>
      if Path.meansFolder path then .error .notFolder else .ok (disk.put location (.file content))
    | none =>
      if !disk.hasFolderOf location then .error .missing
      else if Path.meansFolder path then .error .isFolder
      else .ok (disk.put location (.file content))

/-- Make the folders that are missing on the way from a location. -/
def makeFolders (disk : Disk) : List String → List String → Disk × Except AccessProblem Unit
  | [], location =>
    match disk.at? location with
    | some (.file _) => (disk, .error .notFolder)
    | _ => (disk, .ok ())
  | part :: rest, location =>
    let next := if part = ".." then location.dropLast else location ++ [part]
    if Path.mostNameBytes < part.utf8ByteSize then (disk, .error .badPath)
    else
      match disk.at? next with
      | some .folder => makeFolders disk rest next
      | some (.file _) => (disk, .error .notFolder)
      | none => makeFolders (disk.put next .folder) rest next

/-- Make a folder, and those it is in. -/
def makeFolder (disk : Disk) (path : String) : Disk × Except AccessProblem Unit :=
  if Path.isPossible path then
    disk.makeFolders (Path.parts path) (if Path.isAbsolute path then ["/"] else [])
  else (disk, .error .badPath)

/-- The names of what is in a folder. -/
def names (disk : Disk) (path : String) : List String :=
  match disk.locate path with
  | .error _ => []
  | .ok location =>
    disk.entries.filterMap fun entry =>
      match entry.1.getLast? with
      | some name => if entry.1.dropLast == location then some name else none
      | none => none

/-- Make a file or folder, and the folders it is in. What cannot be made is left out. -/
def place (disk : Disk) (path : String) (content? : Option Bytes) : Disk :=
  match content? with
  | none => (disk.makeFolder path).1
  | some content =>
    let ready := match Path.parent? path with
      | some folder => (disk.makeFolder folder).1
      | none => disk
    (ready.write path content).toOption.getD ready

end Disk

instance : Storage (StateM Disk) where
  status path := fun disk => (disk.status path, disk)
  readFile path := fun disk => (disk.read path, disk)
  writeFile path content := fun disk =>
    match disk.write path content with
    | .ok disk => (.ok (), disk)
    | .error problem => (.error problem, disk)
  makeFolder path := fun disk => (disk.makeFolder path).swap
  entries path := fun disk => (disk.names path, disk)

end Patchbay
