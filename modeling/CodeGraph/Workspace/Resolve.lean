import CodeGraph.Workspace.Basic

/-!
# What an import stands for

An import stands for a file, or for what a name means to those who import the file: a symbol
declared at its top level, or whatever an import that the file exposes makes of the name. The search
follows such imports from file to file and looks at each file once.
-/

namespace CodeGraph

/-- Whether those who import a file see what the import binds. -/
def ImportFact.isExposed (fact : ImportFact) : Language → Bool
  | .python => fact.scope = ScopeTree.root
  | .javascript | .typescript | .rust => fact.reexport
  | .go | .java | .other => false

def SourceFile.exposesImports (file : SourceFile) : Bool :=
  file.facts.imports.any fun fact => fact.isExposed file.language

def Fallback.binding : Fallback → Binding
  | unresolved reason => .unresolved reason
  | external name => .external name

namespace Workspace

def present (workspace : Workspace) (language : Language) : Candidate → List SourceFile
  | .file path => (workspace.file? path).toList
  | .package directory => workspace.packageFiles directory language

/-- The files of the first candidate that has any. -/
def firstPresent (workspace : Workspace) (language : Language) (candidates : List Candidate) :
    List SourceFile :=
  ((candidates.map (workspace.present language)).find? fun files => !files.isEmpty).getD []

/-- A search that keeps a list of the files it has seen. -/
abbrev Seeking (α : Type) := List Path → α × List Path

/-- The first answer along a list. -/
def firstFound {α β : Type} (search : α → Seeking (Option β)) : List α → Seeking (Option β)
  | [], seen => (none, seen)
  | head :: rest, seen =>
    match search head seen with
    | (some found, seen) => (some found, seen)
    | (none, seen) => firstFound search rest seen

/-- What a name means to those who import the given files. -/
abbrev MemberSearch := List SourceFile → String → Seeking (Option Binding)

def submodule? (workspace : Workspace) (language : Language) (plan : ModulePlan) :
    Option Binding :=
  (workspace.firstPresent language plan.memberCandidates).head?.map fun file =>
    .resolved file.node

/-- What an import stands for, given the search for its member. -/
def resolveWith (workspace : Workspace) (search : MemberSearch) (language : Language)
    (fact : ImportFact) (plan : ModulePlan) : Seeking Binding := fun seen =>
  match workspace.firstPresent language plan.candidates, fact.member with
  | [], none => (plan.fallback.binding, seen)
  | [], some _ => ((workspace.submodule? language plan).getD plan.fallback.binding, seen)
  | file :: _, none => (.resolved file.node, seen)
  | file :: rest, some member =>
    if fact.wildcard then (.resolved file.node, seen)
    else match search (file :: rest) member seen with
      | (some found, seen) => (found, seen)
      | (none, seen) =>
        let missing := Binding.unresolved (member ++ " not found in " ++ fact.specifier)
        ((workspace.submodule? language plan).getD missing, seen)

/-- The name under which the file itself knows a member; `default` is what it exports as such. -/
def soughtName? (file : SourceFile) (name : String) : Option String :=
  if name = "default" then file.facts.defaultExport else some name

/-- Follows an exposed import that binds the name; an unresolved one leads nowhere. -/
def searchImport (workspace : Workspace) (search : MemberSearch) (file : SourceFile)
    (name : String) : Seeking (Option Binding) := fun seen =>
  let bound := do
    let scope ← file.facts.scopes.rootScope?
    let (fact, plan) ← file.planned? (← scope.import? name)
    guard (fact.isExposed file.language)
    return (fact, plan)
  match bound with
  | none => (none, seen)
  | some (fact, plan) =>
    match workspace.resolveWith search file.language fact plan seen with
    | (.unresolved _, seen) => (none, seen)
    | (found, seen) => (some found, seen)

def searchWildcard (workspace : Workspace) (search : MemberSearch) (file : SourceFile)
    (name : String) (index : Nat) : Seeking (Option Binding) := fun seen =>
  match file.planned? index with
  | none => (none, seen)
  | some (fact, plan) =>
    if fact.isExposed file.language then
      search (workspace.firstPresent file.language plan.candidates) name seen
    else (none, seen)

def wildcardsOf (file : SourceFile) : List Nat :=
  (file.facts.scopes.rootScope?.map Scope.wildcards).getD []

/-- Looks in one file that has not been seen: its own symbols first, then the exposed import of
that name, then the exposed wildcards in order. -/
def searchFile (workspace : Workspace) (search : MemberSearch) (name : String)
    (file : SourceFile) : Seeking (Option Binding) := fun seen =>
  if file.path ∈ seen then (none, seen)
  else
    let seen := file.path :: seen
    match soughtName? file name with
    | none => (none, seen)
    | some name =>
      match (file.facts.topLevelSymbol? name).bind file.symbol? with
      | some id => (some (.resolved id), seen)
      | none =>
        match workspace.searchImport search file name seen with
        | (some found, seen) => (some found, seen)
        | (none, seen) =>
          firstFound (workspace.searchWildcard search file name) (wildcardsOf file) seen

/-- The search through at most `depth` files in a row. -/
def searchWithin (workspace : Workspace) : Nat → MemberSearch
  | 0 => fun _ _ seen => (none, seen)
  | depth + 1 => fun files name =>
    firstFound (workspace.searchFile (workspace.searchWithin depth) name) files

/-- The whole search: a chain of files that are all different is no longer than the workspace. -/
def searchMember (workspace : Workspace) : MemberSearch :=
  workspace.searchWithin (workspace.files.length + 1)

/-- What a name means to those who import the given files. -/
def lookupMember (workspace : Workspace) (files : List SourceFile) (name : String) :
    Option Binding :=
  (workspace.searchMember files name []).1

/-- What an import stands for among the files that are present. -/
def resolveImport (workspace : Workspace) (language : Language) (fact : ImportFact)
    (plan : ModulePlan) : Binding :=
  (workspace.resolveWith workspace.searchMember language fact plan []).1

end Workspace

end CodeGraph
