import CodeGraph.Workspace.Resolve

/-!
# What a name stands for

A name used in a file is looked up from the scope of its use outwards, then among the other files of
the package. The segments after the name lead on through files and classes. Members of a class are
its own first, then those of its bases, the nearest first.
-/

namespace CodeGraph

/-- What one scope says of a name: a node, with how many segments of the path it stands for; a
meaning outside the graph, which ends the search; or nothing. -/
inductive Lookup where
  | found (id : NodeId) (consumed : Nat)
  | hidden
  | missing
  deriving DecidableEq, Repr

/-- The dotted names that begin a use, longest first, each with the number of segments it takes. -/
def NameRef.dottedNames (target : NameRef) : List (String × Nat) :=
  (List.range (target.path.length + 1)).reverse.map fun taken =>
    (Text.join "." (target.name :: target.path.take taken), taken)

/-- Languages whose files share the names of their package. -/
def Language.sharesPackage : Language → Bool
  | go | java => true
  | python | javascript | typescript | rust | other => false

namespace Workspace

/-! ### Scopes -/

/-- The node an import is bound to, while that node is alive. -/
def importTarget? (workspace : Workspace) (file : SourceFile) (index : Nat) : Option NodeId := do
  let id ← file.imports[index]?
  let node ← workspace.graph.node? id
  let target ← node.binding?.bind Binding.target?
  if workspace.graph.contains target then some target else none

/-- What a wildcard import makes of a name. -/
def wildcardMember? (workspace : Workspace) (file : SourceFile) (name : String) (index : Nat) :
    Option NodeId := do
  let _ ← workspace.importTarget? file index
  let (_, plan) ← file.planned? index
  let found ← workspace.lookupMember (workspace.firstPresent file.language plan.candidates) name
  found.target?

def lookupImports (workspace : Workspace) (file : SourceFile) (scope : Scope)
    (target : NameRef) : Lookup :=
  let bound := target.dottedNames.findSome? fun (name, taken) =>
    (scope.import? name).map fun index => (index, taken)
  match bound with
  | some (index, taken) =>
    match workspace.importTarget? file index with
    | some id => .found id taken
    | none => .hidden
  | none =>
    match scope.wildcards.findSome? (workspace.wildcardMember? file target.name) with
    | some id => .found id 0
    | none => .missing

/-- Definitions come first, then imports by name, then wildcard imports. -/
def lookupInScope (workspace : Workspace) (file : SourceFile) (scope : Scope)
    (target : NameRef) : Lookup :=
  match scope.definition? target.name with
  | some .plain => .hidden
  | some (.symbol index) =>
    match file.symbol? index with
    | some id => .found id 0
    | none => .hidden
  | none => workspace.lookupImports file scope target

/-- The scopes searched for a name used in `scope`: class bodies around it are visible in Java
only. -/
def visibleScopes (file : SourceFile) (scope : ScopeId) : List Scope :=
  let chain := (file.facts.scopes.chain scope).filter fun (id, level) =>
    level.kind ≠ .classBody || id = scope || file.language = .java
  chain.map Prod.snd

def lookupInScopes (workspace : Workspace) (file : SourceFile) (target : NameRef) :
    List Scope → Lookup
  | [] => .missing
  | scope :: rest =>
    match workspace.lookupInScope file scope target with
    | .missing => lookupInScopes workspace file target rest
    | answer => answer

/-! ### Packages -/

/-- The other files that share the package of the file, in path order. -/
def packageSiblings (workspace : Workspace) (file : SourceFile) : List SourceFile :=
  match file.path.parent? with
  | none => []
  | some directory =>
    (workspace.packageFiles directory file.language).filter fun sibling =>
      sibling.path ≠ file.path && sibling.facts.package = file.facts.package

def lookupInPackage (workspace : Workspace) (file : SourceFile) (name : String) :
    Option NodeId :=
  if file.language.sharesPackage then
    (workspace.packageSiblings file).findSome? fun sibling =>
      (sibling.facts.topLevelSymbol? name).bind sibling.symbol?
  else none

/-! ### Paths -/

def symbolNode? (workspace : Workspace) (id : NodeId) : Option NodeId := do
  let node ← workspace.graph.node? id
  if node.kind.isSymbol then some id else none

/-- The files whose members a file node stands for. -/
def facade (workspace : Workspace) (file : SourceFile) : List SourceFile :=
  match file.path.parent? with
  | some directory =>
    if file.language.sharesPackage then workspace.packageFiles directory file.language
    else [file]
  | none => [file]

def fileMember? (workspace : Workspace) (path : Path) (name : String) : Option NodeId := do
  let file ← workspace.file? path
  let found ← workspace.lookupMember (workspace.facade file) name
  found.target?

def classMember? (workspace : Workspace) (id : NodeId) (name : String) : Option NodeId := do
  let (file, index) ← workspace.locate? id
  file.member? index name

/-- The symbol reached along a path of names. A name that a file lacks ends the walk in nothing;
one that a symbol lacks ends it at the symbol. -/
def follow (workspace : Workspace) : NodeId → List String → Option NodeId
  | current, [] => workspace.symbolNode? current
  | current, name :: rest =>
    match workspace.graph.node? current with
    | none => none
    | some node =>
      match node.kind with
      | .file =>
        match workspace.fileMember? node.path name with
        | some next => follow workspace next rest
        | none => none
      | .classDef =>
        match workspace.classMember? current name with
        | some next => follow workspace next rest
        | none => workspace.symbolNode? current
      | _ => workspace.symbolNode? current

/-- The symbol that a use means. -/
def resolveName (workspace : Workspace) (file : SourceFile) (scope : ScopeId)
    (target : NameRef) : Option NodeId :=
  match workspace.lookupInScopes file target (visibleScopes file scope) with
  | .found id consumed => workspace.follow id (target.path.drop consumed)
  | .hidden => none
  | .missing =>
    match workspace.lookupInPackage file target.name with
    | some id => workspace.follow id target.path
    | none => none

/-! ### Classes -/

def isClass (workspace : Workspace) (id : NodeId) : Bool :=
  (workspace.graph.node? id).any fun node => node.kind = .classDef

/-- The classes named as bases of a symbol. -/
def basesIn (workspace : Workspace) (file : SourceFile) (symbol : SymbolFact) : List NodeId :=
  (symbol.bases.filterMap (workspace.resolveName file symbol.scope)).filter workspace.isClass

def basesOf (workspace : Workspace) (id : NodeId) : List NodeId :=
  match workspace.locate? id with
  | none => []
  | some (file, index) =>
    match file.facts.symbols[index]? with
    | none => []
    | some symbol => workspace.basesIn file symbol

/-- Asks the classes that wait in turn, each once. The bases of one without the member wait behind all
others, and what is found on one of them is inherited. -/
def askInTurn (workspace : Workspace) (name : String) :
    Nat → List NodeId → List (NodeId × Bool) → Option (NodeId × Bool)
  | 0, _, _ => none
  | _ + 1, _, [] => none
  | turns + 1, seen, (current, inherited) :: waiting =>
    if current ∈ seen then askInTurn workspace name turns seen waiting
    else match workspace.classMember? current name with
      | some member => some (member, inherited)
      | none =>
        askInTurn workspace name turns (seen ++ [current])
          (waiting ++ (workspace.basesOf current).map (·, true))

def baseCount (workspace : Workspace) : Nat :=
  (workspace.files.flatMap fun file => file.facts.symbols.flatMap SymbolFact.bases).length

/-- The member of a class or of its nearest base that has it, and whether it is a base's. Apart from
the class itself every one that gets its turn is named as a base. -/
def nearestMember? (workspace : Workspace) (id : NodeId) (name : String) : Option (NodeId × Bool) :=
  workspace.askInTurn name (workspace.baseCount + 1) [] [(id, false)]

end Workspace

end CodeGraph
