import CodeGraph.Import.Respell
import CodeGraph.Workspace.Pass

/-!
# Moving a file

A file that moves keeps its nodes, and the imports that pointed at it are spelled anew where the
language spells them by place.
-/

namespace CodeGraph

/-- A replacement of a range of a text. -/
structure Replacement where
  range : ByteRange
  text : String
  deriving DecidableEq, Repr

namespace Replacement

/-- In the order of the text, and only the first of those that begin at one place. -/
def inOrder (replacements : List Replacement) : List Replacement :=
  (replacements.mergeSort fun left right => left.range.start ≤ right.range.start).foldr
    (fun head rest =>
      head :: rest.dropWhile fun next => next.range.start = head.range.start) []

/-- Makes one replacement, if its range is one of the text. -/
def apply (state : String × List TextEdit) (replacement : Replacement) :
    String × List TextEdit :=
  let (text, edits) := state
  let range := replacement.range
  match Text.splice? text range.start range.stop replacement.text with
  | none => state
  | some text => (text, edits ++ [TextEdit.replace range (Text.size replacement.text)])

/-- Makes the replacements from the back of the text to its front, so that each leaves the ranges
still to come in place; the answer lists the edits as they were made. -/
def applyAll (text : String) (replacements : List Replacement) : String × List TextEdit :=
  replacements.reverse.foldl apply (text, [])

end Replacement

namespace Workspace

/-- Whether an import is bound to a node in the file at a path, by way of a module candidate. -/
def pointsInto (workspace : Workspace) (id : NodeId) (plan : ModulePlan) (path : Path) : Bool :=
  let target := do
    let node ← workspace.graph.node? id
    workspace.graph.node? (← node.binding?.bind Binding.target?)
  plan.candidates.any (·.accepts path) && target.any fun node => node.path = path

/-- The new spelling of one import of a file, with the uses that have to follow it. -/
def respellings (workspace : Workspace) (config : Config) (file : SourceFile) (source target : Path)
    (entry : NodeId × ImportFact × ModulePlan) : List Replacement :=
  let (id, fact, plan) := entry
  let found := do
    guard (workspace.pointsInto id plan source)
    let range := fact.specifierRange
    let spelled ← Text.slice? file.text range.start range.stop
    let respelled ← Respell.specifier? file.language file.path fact spelled target
      (config.language file.language)
    guard (respelled ≠ spelled)
    let uses := Respell.moduleUses file.language fact file.facts.references file.text respelled
    return Replacement.mk range respelled ::
      uses.map fun (range, text) => Replacement.mk range text
  found.getD []

/-- The replacements to make in an importer when a file moves. -/
def importerReplacements (workspace : Workspace) (config : Config) (source target : Path)
    (file : SourceFile) : List Replacement :=
  Replacement.inOrder ((file.imports.zip (file.facts.imports.zip file.plans)).flatMap
    (workspace.respellings config file source target))

/-- The importers of a file that have to change when it moves, with their replacements. -/
def affectedImporters (workspace : Workspace) (config : Config) (source target : Path) :
    List (Path × List Replacement) :=
  ((workspace.importersOf source).filterMap workspace.file?).map fun file =>
    (file.path, workspace.importerReplacements config source target file)

end Workspace

namespace Pass

/-- Takes a file and its nodes to another path, with a new history. -/
def relocate (pass : Pass) (file : SourceFile) (target : Path) : Except GraphError Pass := do
  let workspace := withdraw pass.workspace file
  let graph ← (file.symbols ++ file.imports ++ [file.node]).foldlM
    (fun graph id => graph.update id fun node => { node with path := target }) workspace.graph
  let moved := { file with
    path := target
    created := pass.sequence
    history := []
    historyFloor := pass.sequence }
  return { pass with workspace := ({ workspace with graph }).putFile moved }

/-- Makes the replacements in one importer. -/
def respell (environment : Environment) (pass : Pass) (entry : Path × List Replacement) :
    Except SyncError Pass := do
  let (path, replacements) := entry
  match pass.workspace.file? path with
  | none => return pass
  | some file =>
    let (text, edits) := Replacement.applyAll file.text replacements
    if edits.isEmpty then return pass
    else return (← applyText environment pass path text edits).writeBack (.write path text)

/-- Moves a file and points its importers to the new path. -/
def rename (environment : Environment) (pass : Pass) (source target : Path) :
    Except SyncError Pass := do
  match pass.workspace.file? source with
  | none => throw (.unknownFile source)
  | some file =>
    let importers := pass.workspace.affectedImporters environment.config source target
    let pass ← (pass.relocate file target).mapError SyncError.graph
    let pass ← applyText environment pass target file.text []
    let pass := { pass with removed := pass.removed.put source (Language.ofPath source) }
    let pass := ((pass.noteChanged source).noteChanged target).writeBack (.remove source)
    importers.foldlM (respell environment) (pass.writeBack (.write target file.text))

end Pass

end CodeGraph
