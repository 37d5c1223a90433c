import CodeGraph.Disk.Basic
import CodeGraph.Workspace.Pass

/-!
# Changes on disk

The changes that a commit asks for are made on disk one by one. When one fails, every file touched
so far gets back what it held before.
-/

namespace CodeGraph.Disk

/-- What a file held, or nothing if there was no file. -/
def snapshot (disk : Disk) (path : Path) : Except DiskError (Option ByteArray) :=
  match disk.read path with
  | .ok content => .ok (some content)
  | .error .notFound => .ok none
  | .error error => .error error

/-- Removes a file; one that is not there needs no removing. -/
def discard (disk : Disk) (path : Path) : Except DiskError Disk :=
  match disk.removeFile path with
  | .error .notFound => .ok disk
  | answer => answer

/-- Writes a file, in a directory made for it where there is none. The directories stay even if the
writing fails. -/
def writeMaking (disk : Disk) (path : Path) (content : ByteArray) : Disk × Option DiskError :=
  let made := match path.parent? with
    | some directory => disk.makeDirectories directory
    | none => (disk, none)
  match made with
  | (made, some error) => (made, some error)
  | (made, none) =>
    match made.write path content with
    | .error error => (made, some error)
    | .ok written => (written, none)

def perform (disk : Disk) (path : Path) : DiskChange → Disk × Option DiskError
  | .write _ text => disk.writeMaking path text.toUTF8
  | .remove _ =>
    match disk.discard path with
    | .error error => (disk, some error)
    | .ok removed => (removed, none)

/-- Puts back what one file held; what cannot be put back stays. -/
def putBack (disk : Disk) (saved : Path × Option ByteArray) : Disk :=
  let restored := match saved.2 with
    | some content => disk.write saved.1 content
    | none => disk.discard saved.1
  restored.toOption.getD disk

/-- Makes the changes under a root. `saved` holds what the files touched so far held, the last one
first. -/
def makeChangesFrom (root : Path) : List DiskChange → List (Path × Option ByteArray) → Disk →
    Disk × Option DiskError
  | [], _, disk => (disk, none)
  | change :: rest, saved, disk =>
    let path := root.join change.path.text
    match disk.snapshot path with
    | .error error => (saved.foldl putBack disk, some error)
    | .ok before =>
      let saved := (path, before) :: saved
      match disk.perform path change with
      | (disk, some error) => (saved.foldl putBack disk, some error)
      | (disk, none) => makeChangesFrom root rest saved disk

/-- Makes the changes of a commit under a root, all of them or, as far as files go, none. -/
def makeChanges (disk : Disk) (root : Path) (changes : List DiskChange) :
    Disk × Option DiskError :=
  makeChangesFrom root changes [] disk

end CodeGraph.Disk
