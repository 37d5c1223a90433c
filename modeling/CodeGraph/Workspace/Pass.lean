import CodeGraph.Facts.Pairing
import CodeGraph.Facts.Signature
import CodeGraph.Workspace.Consistency
import CodeGraph.Workspace.Link

/-!
# Passes

A pass turns a workspace into the next one. Its steps bring single files up to date and note which
other files may see a difference; what was noted is worked off when the pass converges.
-/

namespace CodeGraph

/-- What a pass is made with: the settings, and a parser that may be any function of grammar and
text. -/
structure Environment where
  config : Config
  parser : Parser

/-- A change to make on disk once the pass is committed. -/
inductive DiskChange where
  | write (path : Path) (text : String)
  | remove (path : Path)
  deriving DecidableEq, Repr

def DiskChange.path : DiskChange → Path
  | write path _ => path
  | remove path => path

inductive SyncError where
  | graph (error : GraphError)
  | parse (error : ParseError)
  | violated (violation : Violation)
  | unknownFile (path : Path)
  deriving DecidableEq, Repr

def SyncError.message : SyncError → String
  | graph error => error.message
  | parse error => error.message
  | violated violation => "post-condition violated: " ++ violation.message
  | unknownFile path => path.text ++ " is not part of the workspace"

structure Pass where
  workspace : Workspace
  /-- The number the commit will get. -/
  sequence : Nat
  /-- Files whose imports are to be bound again. -/
  bind : PathSet := []
  /-- Files whose uses are to be linked again. -/
  link : PathSet := []
  /-- Files that look different from outside, or came or went. -/
  changed : PathSet := []
  /-- The languages of the files that went. -/
  removed : Table Path Language := {}
  disk : List DiskChange := []

namespace Node

def ofFile (path : Path) (parsed : Parsed) (facts : FileFacts) (symbols imports : List NodeId) :
    Node where
  id := 0
  kind := .file
  name := path.fileName?
  qualifiedName := path.display
  path := path
  range := SourceRange.ofBytes parsed.text ⟨0, Text.size parsed.text⟩
  language := parsed.language
  detail := .file symbols imports facts.errorRanges

def ofSymbol (path : Path) (language : Language) (parent : Option NodeId) (symbol : SymbolFact) :
    Node where
  id := 0
  kind := symbol.kind
  name := some symbol.name
  qualifiedName := symbol.qualifiedName
  path := path
  range := symbol.range
  language := language
  detail := .symbol parent symbol.exported

def ofImport (path : Path) (language : Language) (fact : ImportFact) : Node where
  id := 0
  kind := .importDecl
  name := some fact.displayName
  qualifiedName := fact.displayName
  path := path
  range := fact.range
  language := language
  detail := .importDecl {
    specifier := fact.specifier
    member := fact.member
    renamed := fact.renamed
    wildcard := fact.wildcard
    binding := .unresolved "not resolved yet" }

/-- The new node with the binding of the old one. -/
def keepBinding (new old : Node) : Node :=
  match old.binding? with
  | some binding => new.rebind binding
  | none => new

end Node

namespace Pass

/-- A pass on a workspace, with a fresh journal. -/
def ofWorkspace (workspace : Workspace) : Pass where
  workspace := { workspace with graph := workspace.graph.beginJournal }
  sequence := workspace.sequence + 1

def writeBack (pass : Pass) (change : DiskChange) : Pass :=
  { pass with disk := pass.disk ++ [change] }

def noteChanged (pass : Pass) (path : Path) : Pass :=
  { pass with changed := PathSet.insert path pass.changed }

/-! ### Nodes of a file -/

/-- The containment edges into a symbol from another node than its parent. -/
def strayParents (graph : Graph) (id : NodeId) (parent : Option NodeId) : List EdgeKey :=
  ((graph.edgesTo id).filter fun edge =>
    edge.kind = .contains && some edge.source ≠ parent).map Edge.key

/-- Puts a symbol under its parent and under no other node. -/
def placeSymbol (graph : Graph) (id : NodeId) (parent : Option NodeId) :
    Except GraphError Graph :=
  (graph.removeEdges (strayParents graph id parent)).insertEdges
    (parent.toList.map fun parent => Edge.structural parent id .contains)

/-- Updates the node that a symbol keeps, or makes a new one. -/
def syncSymbol (path : Path) (language : Language) (file : NodeId)
    (state : Graph × List NodeId) (entry : SymbolFact × Option NodeId) :
    Except GraphError (Graph × List NodeId) := do
  let (graph, ids) := state
  let (symbol, kept) := entry
  let parent := symbol.parent.bind (ids[·]?)
  let node := Node.ofSymbol path language parent symbol
  match kept with
  | some id =>
    let graph ← graph.update id fun _ => node
    return (← placeSymbol graph id parent, ids ++ [id])
  | none =>
    let (id, graph) ← graph.insertNode node
    let graph ← graph.insertEdges [Edge.structural file id .defines]
    return (← placeSymbol graph id parent, ids ++ [id])

/-- Removes the nodes of what disappeared, unless they went with another node. -/
def removeFree (graph : Graph) (ids : List NodeId) : Except GraphError Graph :=
  ids.foldlM (fun graph id => if graph.contains id then graph.remove id else .ok graph) graph

/-- Brings the symbol nodes of a file up to date; the answer lists them in the order of the
facts. -/
def syncSymbols (graph : Graph) (path : Path) (language : Language) (file : NodeId)
    (oldFacts : List SymbolFact) (oldIds : List NodeId) (facts : List SymbolFact) :
    Except GraphError (Graph × List NodeId) := do
  let matching := SymbolFact.pair oldFacts facts
  let (graph, ids) ← (facts.zip (matching.carried oldIds)).foldlM
    (syncSymbol path language file) (graph, [])
  return (← removeFree graph (matching.free oldIds), ids)

/-- Updates the node that an import keeps, with its binding, or makes a new one. -/
def syncImport (path : Path) (language : Language) (file : NodeId)
    (state : Graph × List NodeId) (entry : ImportFact × Option NodeId) :
    Except GraphError (Graph × List NodeId) := do
  let (graph, ids) := state
  let (fact, kept) := entry
  let node := Node.ofImport path language fact
  match kept with
  | some id => return (← graph.update id node.keepBinding, ids ++ [id])
  | none =>
    let (id, graph) ← graph.insertNode node
    return (← graph.insertEdges [Edge.structural file id .imports], ids ++ [id])

def syncImports (graph : Graph) (path : Path) (language : Language) (file : NodeId)
    (oldFacts : List ImportFact) (oldIds : List NodeId) (facts : List ImportFact) :
    Except GraphError (Graph × List NodeId) := do
  let matching := ImportFact.pair oldFacts facts
  let (graph, ids) ← (facts.zip (matching.carried oldIds)).foldlM
    (syncImport path language file) (graph, [])
  return (← removeFree graph (matching.free oldIds), ids)

/-! ### Files -/

/-- The file node that is kept, or a new one. -/
def fileNode (graph : Graph) (path : Path) (parsed : Parsed) (facts : FileFacts) :
    Option SourceFile → Except GraphError (NodeId × Graph)
  | some previous => .ok (previous.node, graph)
  | none => graph.insertNode (Node.ofFile path parsed facts [] [])

/-- Brings all nodes of a file up to date: the file node, the symbols and the imports. -/
def syncNodes (graph : Graph) (path : Path) (parsed : Parsed) (facts : FileFacts)
    (previous : Option SourceFile) :
    Except GraphError (Graph × NodeId × List NodeId × List NodeId) := do
  let (node, graph) ← fileNode graph path parsed facts previous
  let (graph, symbols) ← syncSymbols graph path parsed.language node
    ((previous.map fun file => file.facts.symbols).getD [])
    ((previous.map SourceFile.symbols).getD []) facts.symbols
  let (graph, imports) ← syncImports graph path parsed.language node
    ((previous.map fun file => file.facts.imports).getD [])
    ((previous.map SourceFile.imports).getD []) facts.imports
  let graph ← graph.update node fun _ => Node.ofFile path parsed facts symbols imports
  return (graph, node, symbols, imports)

def plansOf (config : Config) (path : Path) (language : Language) (facts : FileFacts) :
    List ModulePlan :=
  facts.imports.map fun fact => ModulePlan.make language path fact (config.language language)

/-- The workspace without a file and without its entries in the index. -/
def withdraw (workspace : Workspace) (file : SourceFile) : Workspace :=
  (workspace.dropFile file.path).unindexPlans file.path file.plans

def withdrawAt (workspace : Workspace) (path : Path) : Workspace :=
  match workspace.file? path with
  | some file => withdraw workspace file
  | none => workspace

/-- Makes a parsed text the content of the file at a path. -/
def install (environment : Environment) (pass : Pass) (path : Path) (parsed : Parsed)
    (edits : List TextEdit) : Except GraphError Pass := do
  let facts := parsed.facts
  let previous := pass.workspace.file? path
  let workspace := withdrawAt pass.workspace path
  let (graph, node, symbols, imports) ← syncNodes workspace.graph path parsed facts previous
  let plans := plansOf environment.config path parsed.language facts
  let file : SourceFile := {
    path, node, parsed, facts, symbols, imports, plans
    created := (previous.map SourceFile.created).getD pass.sequence
    history := (previous.map SourceFile.history).getD []
    historyFloor := (previous.map SourceFile.historyFloor).getD 0 }
  let file := (edits.map (AppliedEdit.mk pass.sequence)).foldl
    (SourceFile.remember environment.config.editHistory) file
  let unchanged := previous.any fun old => old.facts.signature = facts.signature
  return { pass with
    workspace := (({ workspace with graph }).indexPlans path plans).putFile file
    changed := if unchanged then pass.changed else PathSet.insert path pass.changed
    bind := PathSet.insert path pass.bind
    link := PathSet.insert path pass.link }

/-- Parses a text and makes it the content of the file at a path. -/
def applyText (environment : Environment) (pass : Pass) (path : Path) (text : String)
    (edits : List TextEdit) : Except SyncError Pass := do
  let parsed ← (Parsed.parse environment.parser path (Language.ofPath path) text).mapError
    SyncError.parse
  (install environment pass path parsed edits).mapError SyncError.graph

/-- Drops a file with everything it owns. -/
def remove (pass : Pass) (path : Path) : Except SyncError Pass := do
  match pass.workspace.file? path with
  | none => throw (.unknownFile path)
  | some file =>
    let workspace := withdraw pass.workspace file
    let graph ← (workspace.graph.remove file.node).mapError SyncError.graph
    return { pass with
      workspace := { workspace with graph }
      removed := pass.removed.put path file.language
      changed := PathSet.insert path pass.changed
      bind := PathSet.remove path pass.bind
      link := PathSet.remove path pass.link }

end Pass

end CodeGraph
