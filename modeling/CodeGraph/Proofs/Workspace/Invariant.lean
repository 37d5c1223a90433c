import CodeGraph.Proofs.Facts.Extract
import CodeGraph.Proofs.Graph.Removal
import CodeGraph.Proofs.Matching
import CodeGraph.Workspace.Move

/-!
# The invariant of a workspace

Files and graph describe the same project twice. Every file has a node for itself, for each of its
symbols and for each of its imports, in the order of its facts; there are no other nodes but those of
outside modules; and the edges of each kind are the ones that files and bindings call for.

A pass breaks this in two places only, which the invariant names: the nodes of a file that has moved
still show what it was before (`stale`), and the imports of a file that waits to be bound may stand
for modules of the language it had before (`pending`).
-/

namespace CodeGraph

/-- One symbol is the parent of another, by their nodes. -/
def Nests (facts : List SymbolFact) (ids : List NodeId) (parent child : NodeId) : Prop :=
  ∃ (index outer : Nat) (fact : SymbolFact), facts[index]? = some fact ∧
    fact.parent = some outer ∧ ids[outer]? = some parent ∧ ids[index]? = some child

theorem Parsed.exists_grammar_of_parse {parser : Parser} {path : Path} {language : Language}
    {text : String} {parsed : Parsed} (hparse : Parsed.parse parser path language text = .ok parsed) :
    ∃ grammar, language.grammar? path = some grammar ∧
      parsed = { language, text, tree := parser grammar text } := by
  rw [Parsed.parse] at hparse
  split at hparse
  · rename_i grammar hgrammar
    exact ⟨grammar, hgrammar, (Except.ok.inj hparse).symm⟩
  · cases hparse

namespace SourceFile

/-- The nodes of a file: its own, those of its symbols and those of its imports. -/
def nodes (file : SourceFile) : List NodeId :=
  file.node :: (file.symbols ++ file.imports)

/-- Nodes and plans are listed in the order of the facts. -/
structure Parallel (file : SourceFile) : Prop where
  symbols : file.symbols.length = file.facts.symbols.length
  imports : file.imports.length = file.facts.imports.length
  plans : file.plans.length = file.facts.imports.length
  nodup : file.nodes.Nodup
  formed : file.facts.WellFormed

/-- The nodes of the file are there and belong to it. -/
structure Held (graph : Graph) (file : SourceFile) : Prop where
  own : ∃ node errors, graph.node? file.node = some node ∧ node.kind = .file ∧
    node.path = file.path ∧ node.detail = .file file.symbols file.imports errors
  symbol : ∀ (index : Nat) id fact, file.symbols[index]? = some id →
    file.facts.symbols[index]? = some fact →
    ∃ node parent exported, graph.node? id = some node ∧ node.kind = fact.kind ∧
      node.path = file.path ∧ node.detail = .symbol parent exported
  imported : ∀ id ∈ file.imports, ∃ node detail, graph.node? id = some node ∧
    node.kind = .importDecl ∧ node.path = file.path ∧ node.detail = .importDecl detail

/-- The nodes of the file show exactly what its facts say. -/
structure Drawn (graph : Graph) (file : SourceFile) : Prop where
  own : graph.node? file.node = some { Node.ofFile file.path file.parsed file.facts file.symbols
    file.imports with id := file.node }
  symbol : ∀ (index : Nat) id fact, file.symbols[index]? = some id →
    file.facts.symbols[index]? = some fact →
    graph.node? id = some { Node.ofSymbol file.path file.language
      (fact.parent.bind (file.symbols[·]?)) fact with id }
  imported : ∀ (index : Nat) id fact, file.imports[index]? = some id →
    file.facts.imports[index]? = some fact →
    ∃ binding, graph.node? id = some
      (({ Node.ofImport file.path file.language fact with id } : Node).rebind binding)

/-- The file is what its path and its text make of it. -/
structure Current (environment : Environment) (file : SourceFile) : Prop where
  parsed : Parsed.parse environment.parser file.path (Language.ofPath file.path) file.text =
    .ok file.parsed
  facts : file.facts = file.parsed.facts
  plans : file.plans = Pass.plansOf environment.config file.path file.language file.facts

/-- The language of a file that is up to date is that of its path. -/
theorem Current.language_eq {environment : Environment} {file : SourceFile}
    (hcurrent : file.Current environment) : file.language = Language.ofPath file.path := by
  obtain ⟨grammar, -, hparsed⟩ := Parsed.exists_grammar_of_parse hcurrent.parsed
  rw [SourceFile.language, hparsed]

end SourceFile

namespace Workspace

/-- The edges that leave an import are the ones its binding calls for. Outside modules are looked up
under a language. -/
def Binds (workspace : Workspace) (language : Language) (id : NodeId) : Binding → Prop
  | .resolved target =>
    (∃ node, workspace.graph.node? target = some node ∧
      (node.kind = .file ∨ node.kind.isSymbol = true)) ∧
    ∀ other, workspace.graph.hasEdge ⟨id, other, .imports⟩ ↔ other = target
  | .unresolved _ => ∀ other, ¬ workspace.graph.hasEdge ⟨id, other, .imports⟩
  | .external name => ∃ module, workspace.externals.get? (language, name) = some module ∧
    ∀ other, workspace.graph.hasEdge ⟨id, other, .imports⟩ ↔ other = module

/-- Files in path order, at normalized paths. -/
structure Ordered (files : List SourceFile) : Prop where
  sorted : files.Pairwise fun left right => left.path.le right.path ∧ left.path ≠ right.path
  normal : ∀ file ∈ files, file.path.IsNormal

/-- The edges are the ones that files call for. -/
structure Wired (workspace : Workspace) : Prop where
  defines : ∀ source target, workspace.graph.hasEdge ⟨source, target, .defines⟩ ↔
    ∃ file ∈ workspace.files, source = file.node ∧ target ∈ file.symbols
  contains : ∀ source target, workspace.graph.hasEdge ⟨source, target, .contains⟩ ↔
    ∃ file ∈ workspace.files, Nests file.facts.symbols file.symbols source target
  imports : ∀ source target, workspace.graph.hasEdge ⟨source, target, .imports⟩ →
    (∃ file ∈ workspace.files, source = file.node ∧ target ∈ file.imports) ∨
      ∃ file ∈ workspace.files, source ∈ file.imports
  lists : ∀ file ∈ workspace.files, ∀ target ∈ file.imports,
    workspace.graph.hasEdge ⟨file.node, target, .imports⟩
  uses : ∀ edge, workspace.graph.hasEdge edge → edge.kind = .references ∨ edge.kind = .inherits →
    (∃ file ∈ workspace.files, edge.source = file.node ∨ edge.source ∈ file.symbols) ∧
      ∃ file ∈ workspace.files, edge.target ∈ file.symbols

/-- There is one node for each outside module that is registered, and no other. -/
structure Registered (workspace : Workspace) : Prop where
  keyed : workspace.externals.Keyed
  shown : ∀ language name id, workspace.externals.get? (language, name) = some id ↔
    workspace.graph.node? id = some { Node.ofExternal language name with id }
  covered : ∀ id node, workspace.graph.node? id = some node → node.kind = .external →
    ∃ language name, workspace.externals.get? (language, name) = some id

/-- The index lists the importers of every place. -/
structure Indexed (stale : Path → Prop) (workspace : Workspace) : Prop where
  sorted : ∀ place, PathSet.Sorted (workspace.indexedAt place)
  only : ∀ place, ∀ path ∈ workspace.indexedAt place,
    ∃ file ∈ workspace.files, file.path = path ∧ place ∈ placesOf file.plans
  all : ∀ file ∈ workspace.files, ¬ stale file.path → ∀ place ∈ placesOf file.plans,
    file.path ∈ workspace.indexedAt place

/-- **The invariant.** -/
structure Stands (environment : Environment) (stale pending : Path → Prop)
    (workspace : Workspace) : Prop where
  graph : workspace.graph.Sound
  ordered : Ordered workspace.files
  parallel : ∀ file ∈ workspace.files, file.Parallel
  held : ∀ file ∈ workspace.files, file.Held workspace.graph
  drawn : ∀ file ∈ workspace.files, ¬ stale file.path →
    file.Drawn workspace.graph ∧ file.Current environment
  covered : ∀ id node, workspace.graph.node? id = some node → node.kind ≠ .external →
    ∃ file ∈ workspace.files, id ∈ file.nodes
  wired : workspace.Wired
  registered : workspace.Registered
  bound : ∀ file ∈ workspace.files, ∀ id ∈ file.imports, ∃ node binding language,
    workspace.graph.node? id = some node ∧ node.binding? = some binding ∧
      (¬ pending file.path → language = file.language) ∧ workspace.Binds language id binding
  indexed : workspace.Indexed stale

/-- The invariant between passes. -/
abbrev Sound (environment : Environment) (workspace : Workspace) : Prop :=
  workspace.Stands environment (fun _ => False) (fun _ => False)

end Workspace

end CodeGraph
