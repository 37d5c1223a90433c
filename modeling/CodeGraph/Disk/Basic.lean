import CodeGraph.Path
import CodeGraph.Table
import CodeGraph.Text.Lossy

/-!
# Disks

A tree of regular files and directories. An entry is known by the names that lead to it from the
top, and the top itself is a directory. An operation fails exactly when the shape of the tree or the
spelling of the path makes it fail.
-/

namespace CodeGraph

inductive DiskEntry where
  | file (content : ByteArray)
  | directory

inductive DiskError where
  | notFound
  | notDirectory
  | isDirectory
  | badName
  deriving DecidableEq, Repr

structure Disk where
  entries : Table (List String) DiskEntry := {}

namespace Disk

def empty : Disk := {}

def lookup? (disk : Disk) (names : List String) : Option DiskEntry :=
  if names = [] then some .directory else disk.entries.get? names

/-- The most bytes a name may have. -/
def longestName : Nat := 255

/-- The most bytes a path may have. -/
def longestPath : Nat := 4095

/-- Operations take a path that holds no NUL and is not too long. -/
def isUsable (path : Path) : Bool :=
  !path.text.toList.contains '\x00' && Text.size path.text ≤ longestPath

/-- One step along a path; only a directory can be passed. -/
def step (disk : Disk) (names : List String) (component : Component) :
    Except DiskError (List String) :=
  match disk.lookup? names with
  | none => .error .notFound
  | some (.file _) => .error .notDirectory
  | some .directory =>
    match component with
    | .root => .ok []
    | .current => .ok names
    | .parent => .ok names.dropLast
    | .named name =>
      if longestName < Text.size name then .error .badName else .ok (names ++ [name])

/-- The names a path leads to. All but the last of them are directories; the last may be missing. -/
def locate (disk : Disk) (path : Path) : Except DiskError (List String) :=
  if isUsable path then path.components.foldlM disk.step [] else .error .badName

def find? (disk : Disk) (path : Path) : Option DiskEntry :=
  match disk.locate path with
  | .ok names => disk.lookup? names
  | .error _ => none

def exists? (disk : Disk) (path : Path) : Bool :=
  (disk.find? path).isSome

def isFile (disk : Disk) (path : Path) : Bool :=
  match disk.find? path with
  | some (.file _) => true
  | _ => false

def read (disk : Disk) (path : Path) : Except DiskError ByteArray := do
  match disk.lookup? (← disk.locate path) with
  | none => throw .notFound
  | some .directory => throw .isDirectory
  | some (.file content) => return content

def write (disk : Disk) (path : Path) (content : ByteArray) : Except DiskError Disk := do
  let names ← disk.locate path
  match disk.lookup? names with
  | some .directory => throw .isDirectory
  | _ => return ⟨disk.entries.put names (.file content)⟩

def removeFile (disk : Disk) (path : Path) : Except DiskError Disk := do
  let names ← disk.locate path
  match disk.lookup? names with
  | none => throw .notFound
  | some .directory => throw .isDirectory
  | some (.file _) => return ⟨disk.entries.erase names⟩

/-- Goes along a path from the directory at `names` and makes directories where nothing is. Those
made before a step fails stay. -/
def makeAlong (disk : Disk) (names : List String) : List Component → Disk × Option DiskError
  | [] =>
    match disk.lookup? names with
    | some .directory => (disk, none)
    | _ => (disk, some .notDirectory)
  | component :: rest =>
    match disk.step names component with
    | .error error => (disk, some error)
    | .ok names =>
      match disk.lookup? names with
      | none => makeAlong ⟨disk.entries.put names .directory⟩ names rest
      | some _ => makeAlong disk names rest

/-- Makes the directory at a path and those around it, as far as they are missing. -/
def makeDirectories (disk : Disk) (path : Path) : Disk × Option DiskError :=
  if isUsable path then disk.makeAlong [] path.components else (disk, some .badName)

/-- Removes whatever is at a path, with everything below it. -/
def removeAll (disk : Disk) (path : Path) : Disk :=
  match disk.locate path with
  | .error _ => disk
  | .ok names => ⟨⟨disk.entries.entries.filter fun (other, _) => !names.isPrefixOf other⟩⟩

/-- Everything below a directory, with the names that lead there from it. -/
def below (disk : Disk) (directory : List String) : List (List String × DiskEntry) :=
  disk.entries.entries.filterMap fun (names, entry) =>
    if directory.isPrefixOf names && names.length ≠ directory.length then
      some (names.drop directory.length, entry)
    else none

/-- Everything below a directory in order: the paths of directories end in a slash, and the contents
of files are shown as text. -/
def listing (disk : Disk) (directory : List String) : List (String × String) :=
  let shown := (disk.below directory).map fun (names, entry) =>
    match entry with
    | .file content => (Text.join "/" names, Text.lossy content)
    | .directory => (Text.join "/" names ++ "/", "")
  shown.mergeSort fun left right =>
    (Text.compare left.1 right.1).then (Text.compare left.2 right.2) != .gt

end Disk

end CodeGraph
