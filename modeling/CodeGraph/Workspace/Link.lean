import CodeGraph.Workspace.Bind
import CodeGraph.Workspace.Names

/-!
# Linking uses

The reference and inheritance edges that leave a file's nodes, computed from its facts and compared
with the edges that are there.
-/

namespace CodeGraph

/-- A reference through the object itself is likely to mean the class's own member, -/
def Confidence.ownMember : Confidence := .ofTenths 8

/-- a little less so a member of a base, -/
def Confidence.inheritedMember : Confidence := .ofTenths 7

/-- and a name given as a string is a guess. -/
def Confidence.stringLookup : Confidence := .ofTenths 5

namespace Workspace

/-- The class around a reference. -/
def surroundingClass? (file : SourceFile) (reference : ReferenceFact) : Option NodeId := do
  let owner ← reference.owner
  file.symbol? (← file.facts.enclosingClass? owner)

/-- The symbol or file that makes a reference. -/
def userOf (file : SourceFile) (reference : ReferenceFact) : NodeId :=
  (reference.owner.bind file.symbol?).getD file.node

def selfMember? (workspace : Workspace) (file : SourceFile) (reference : ReferenceFact) :
    Option (NodeId × Bool) := do
  workspace.nearestMember? (← surroundingClass? file reference) reference.target.name

/-- The edge for a reference, unless it means nothing in the graph. -/
def referenceEdge? (workspace : Workspace) (file : SourceFile) (reference : ReferenceFact) :
    Option Edge :=
  let user := userOf file reference
  let named := fun (_ : Unit) => workspace.resolveName file reference.scope reference.target
  match reference.kind with
  | .name => (named ()).map fun target => Edge.structural user target .references
  | .selfMember => (workspace.selfMember? file reference).map fun (target, inherited) =>
    Edge.dynamic user target (if inherited then .inheritedMember else .ownMember)
  | .stringLookup =>
    (((workspace.selfMember? file reference).map Prod.fst).orElse named).map fun target =>
      Edge.dynamic user target .stringLookup

def inheritanceEdges (workspace : Workspace) (file : SourceFile) : List Edge :=
  (file.symbols.zip file.facts.symbols).flatMap fun (id, symbol) =>
    if symbol.kind = .classDef then
      (workspace.basesIn file symbol).map fun base => Edge.structural id base .inherits
    else []

/-- Adds an edge unless the list has one with its key that is at least as certain. -/
def keepStrongest (edges : List Edge) (edge : Edge) : List Edge :=
  match edges.find? fun other => other.key = edge.key with
  | none => edges ++ [edge]
  | some existing =>
    if edge.confidence.value ≤ existing.confidence.value then edges
    else edges.map fun other => if other.key = edge.key then edge else other

/-- The edges a file should have: one for each pair of ends and kind, and none from a node to
itself. -/
def desiredEdges (workspace : Workspace) (file : SourceFile) : List Edge :=
  let references := file.facts.references.filterMap (workspace.referenceEdge? file)
  ((references ++ workspace.inheritanceEdges file).filter fun edge =>
    edge.source ≠ edge.target).foldl keepStrongest []

def isUse (edge : Edge) : Bool :=
  edge.kind = .references || edge.kind = .inherits

/-- The keys of the edges that leave a file's nodes but should not. -/
def staleUses (workspace : Workspace) (file : SourceFile) (desired : List Edge) : List EdgeKey :=
  let current := (file.node :: file.symbols).flatMap fun id =>
    ((workspace.graph.edgesFrom id).filter isUse).map Edge.key
  current.filter (· ∉ desired.map Edge.key)

/-- Makes the uses that leave the file at the path what they should be. -/
def linkFile (workspace : Workspace) (path : Path) : Except GraphError Workspace :=
  match workspace.file? path with
  | none => .ok workspace
  | some file => do
    let desired := workspace.desiredEdges file
    let graph := workspace.graph.removeEdges (workspace.staleUses file desired)
    return { workspace with graph := ← graph.insertEdges desired }

end Workspace

end CodeGraph
