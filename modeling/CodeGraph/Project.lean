import CodeGraph.Config.Read
import CodeGraph.Disk.Ignore
import CodeGraph.Engine

/-!
# Projects on disk

A project is opened by scanning its root for source files. What is hidden, ignored, excluded, of no
supported language or no text is passed over.
-/

namespace CodeGraph

namespace Disk

/-- The entries below a directory that a scan passes over; it does not get to what is below them. -/
def skipped (disk : Disk) (root : List String) : List (List String) :=
  let ignores := Ignores.ofDisk disk
  (disk.below root).filterMap fun (names, entry) =>
    let isDirectory := match entry with
      | .directory => true
      | .file _ => false
    if ignores.isSkipped (root ++ names) isDirectory then some names else none

/-- The files that a scan of a directory finds, by the names that lead there from it. -/
def scan (disk : Disk) (root : List String) : List (List String × ByteArray) :=
  let skipped := disk.skipped root
  (disk.below root).filterMap fun (names, entry) =>
    match entry with
    | .file content => if skipped.any (·.isPrefixOf names) then none else some (names, content)
    | .directory => none

/-- The sources below a root. -/
def sources (disk : Disk) (root : Path) (exclude : List Glob) : List Source :=
  match disk.locate root with
  | .error _ => []
  | .ok names => (disk.scan names).filterMap fun (below, content) => do
    let path := Path.ofNames below
    if exclude.any (·.isMatch path.text) || !(Language.ofPath path).isSupported then none
    else return ⟨path, ← String.fromUTF8? content⟩

end Disk

inductive OpenError where
  | settings (file : Path)
  | invalid
  | index (root : Path)
  deriving DecidableEq, Repr

def OpenError.message : OpenError → String
  | settings file => "failed to load " ++ file.text
  | invalid => "invalid engine configuration"
  | index root => "failed to index " ++ root.text

namespace Engine

/-- An engine for the sources below the root of the settings. -/
def openWith (environment : Environment) (disk : Disk) : Except OpenError Engine := do
  let root := environment.config.root
  match environment.config.validate, environment.config.excludedGlobs with
  | .ok (), .ok exclude =>
    (ofSources environment (disk.sources root exclude) disk).mapError fun _ => .index root
  | _, _ => throw .invalid

/-- The file in which a project keeps its settings. -/
def settingsFile : String := "grove.toml"

/-- Opens the project at a root, with the settings it keeps there or else the usual ones. -/
def openProject (parser : Parser) (disk : Disk) (root : Path) : Except OpenError Engine := do
  let file := root.join settingsFile
  let config ← if disk.isFile file then
      (Config.load disk file).mapError fun _ => OpenError.settings file
    else .ok { root }
  openWith ⟨config, parser⟩ disk

end Engine

end CodeGraph
