import CodeGraph.Graph.Consistency
import CodeGraph.Import.Plan
import CodeGraph.Parsed
import CodeGraph.PathSet
import CodeGraph.Text.Edit

/-!
# Workspaces

A workspace is the graph together with the files it was made from. Files are kept in path order,
each with the ids of the nodes made for its symbols and imports, in the order of its facts. All
paths in a workspace are normalized, so equal paths are equal texts.
-/

namespace CodeGraph

/-- One replacement made in a file, with the number of the commit that made it. -/
structure AppliedEdit where
  sequence : Nat
  edit : TextEdit
  deriving DecidableEq, Repr

/-- Whether a range chosen before the edit may mean another text after it: the edit begins before
the range does, or inside it. -/
def AppliedEdit.invalidates (applied : AppliedEdit) (range : ByteRange) : Bool :=
  applied.edit.start < range.stop || applied.edit.start ≤ range.start

structure SourceFile where
  path : Path
  node : NodeId
  parsed : Parsed
  facts : FileFacts
  /-- The nodes of the symbols, in the order of the facts. -/
  symbols : List NodeId
  /-- The nodes of the imports, in the order of the facts. -/
  imports : List NodeId
  /-- Where each import may point, in the order of the facts. -/
  plans : List ModulePlan
  /-- The commit that added the file or moved it here. -/
  created : Nat
  /-- The latest edits, oldest first. -/
  history : List AppliedEdit
  /-- Edits up to this commit may have been forgotten. -/
  historyFloor : Nat

namespace SourceFile

def language (file : SourceFile) : Language :=
  file.parsed.language

def text (file : SourceFile) : String :=
  file.parsed.text

def hasErrors (file : SourceFile) : Bool :=
  !file.facts.errorRanges.isEmpty

def symbolIndex? (file : SourceFile) (id : NodeId) : Option Nat :=
  file.symbols.idxOf? id

def symbol? (file : SourceFile) (index : Nat) : Option NodeId :=
  file.symbols[index]?

/-- An import of the file with the places it may point to. -/
def planned? (file : SourceFile) (index : Nat) : Option (ImportFact × ModulePlan) := do
  return (← file.facts.imports[index]?, ← file.plans[index]?)

/-- The direct member of a class of the file, by the index of the class. -/
def member? (file : SourceFile) (index : Nat) (name : String) : Option NodeId :=
  (file.facts.member? index name).bind file.symbol?

/-- Whether a range chosen after commit `base` still means the same text. -/
def rangeIsCurrent (file : SourceFile) (base : Nat) (range : ByteRange) : Bool :=
  file.created ≤ base && file.historyFloor ≤ base &&
    (file.history.filter fun applied => base < applied.sequence).all fun applied =>
      !applied.invalidates range

/-- Forgets all but the last `keep` edits, of which there is at least one. -/
def forget (file : SourceFile) (keep : Nat) : SourceFile :=
  let surplus := file.history.length - max keep 1
  let dropped := (file.history.take surplus).map AppliedEdit.sequence
  { file with
    history := file.history.drop surplus
    historyFloor := dropped.foldl max file.historyFloor }

def remember (keep : Nat) (file : SourceFile) (applied : AppliedEdit) : SourceFile :=
  ({ file with history := file.history ++ [applied] }).forget keep

end SourceFile

structure Workspace where
  graph : Graph := {}
  files : List SourceFile := []
  /-- For each place an import may point to, the files that have such an import. -/
  importers : Table Path PathSet := {}
  /-- The node that stands for each module outside the project. -/
  externals : Table (Language × String) NodeId := {}
  /-- The number of the last commit. -/
  sequence : Nat := 0

namespace Workspace

def empty : Workspace := {}

/-! ### Files -/

def file? (workspace : Workspace) (path : Path) : Option SourceFile :=
  workspace.files.find? fun file => file.path = path

def contains (workspace : Workspace) (path : Path) : Bool :=
  (workspace.file? path).isSome

def paths (workspace : Workspace) : List Path :=
  workspace.files.map SourceFile.path

def dropFile (workspace : Workspace) (path : Path) : Workspace :=
  { workspace with files := workspace.files.filter fun file => file.path ≠ path }

/-- Adds a file in its place, or replaces the one at its path. -/
def putFile (workspace : Workspace) (file : SourceFile) : Workspace :=
  let others := (workspace.dropFile file.path).files
  let files := others.takeWhile (·.path.le file.path) ++
    file :: others.dropWhile (·.path.le file.path)
  { workspace with files }

/-- The files of a language directly inside a directory. -/
def packageFiles (workspace : Workspace) (directory : Path) (language : Language) :
    List SourceFile :=
  workspace.files.filter fun file =>
    file.language = language && file.path.parent? = some directory

/-! ### Nodes -/

/-- The file that declares a symbol, and the symbol's index there. -/
def locate? (workspace : Workspace) (id : NodeId) : Option (SourceFile × Nat) := do
  let node ← workspace.graph.node? id
  guard node.kind.isSymbol
  let file ← workspace.file? node.path
  return (file, ← file.symbolIndex? id)

/-- The file a node belongs to; modules outside the project belong to none. -/
def owner? (workspace : Workspace) (id : NodeId) : Option SourceFile := do
  let node ← workspace.graph.node? id
  if node.kind = .external then none else workspace.file? node.path

/-! ### The index of importers -/

def placesOf (plans : List ModulePlan) : List Path :=
  (plans.flatMap ModulePlan.all).map Candidate.path

def indexPlace (importer : Path) (importers : Table Path PathSet) (place : Path) :
    Table Path PathSet :=
  importers.put place (PathSet.insert importer ((importers.get? place).getD []))

def unindexPlace (importer : Path) (importers : Table Path PathSet) (place : Path) :
    Table Path PathSet :=
  match importers.get? place with
  | none => importers
  | some set =>
    match PathSet.remove importer set with
    | [] => importers.erase place
    | rest => importers.put place rest

def indexPlans (workspace : Workspace) (importer : Path) (plans : List ModulePlan) : Workspace :=
  { workspace with importers := (placesOf plans).foldl (indexPlace importer) workspace.importers }

def unindexPlans (workspace : Workspace) (importer : Path) (plans : List ModulePlan) :
    Workspace :=
  { workspace with
    importers := (placesOf plans).foldl (unindexPlace importer) workspace.importers }

def indexedAt (workspace : Workspace) (place : Path) : PathSet :=
  (workspace.importers.get? place).getD []

/-- The other files with an import that may point to the path, as a file or as part of the package
that is its directory. -/
def importersOf (workspace : Workspace) (path : Path) : PathSet :=
  let inPackage := match path.parent? with
    | some directory => workspace.indexedAt directory
    | none => []
  PathSet.remove path (PathSet.insertAll inPackage (workspace.indexedAt path))

end Workspace

end CodeGraph
