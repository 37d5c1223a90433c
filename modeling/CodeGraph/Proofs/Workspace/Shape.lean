import CodeGraph.Proofs.Workspace.Check
import CodeGraph.Proofs.Workspace.Link
import Mathlib.Data.List.Perm.Subperm

/-!
# The shape of a sound workspace

What the invariant means for a reader of the graph: which nodes there are and what they show, which
edges join them, and how bindings and edges go together.
-/

namespace CodeGraph

/-- The nodes that the import edges of a node lead to. -/
def Graph.importTargets (graph : Graph) (id : NodeId) : List NodeId :=
  ((graph.edgesFrom id).filter fun edge => edge.kind = .imports).map Edge.target

/-- One symbol is directly inside another. -/
def Graph.Encloses (graph : Graph) (parent child : NodeId) : Prop :=
  graph.hasEdge ⟨parent, child, .contains⟩

/-- The node shows a symbol of a file, under the node of its parent. -/
structure Node.ShowsSymbol (node : Node) (file : SourceFile) (fact : SymbolFact) : Prop where
  kind : node.kind = fact.kind
  name : node.name = some fact.name
  qualifiedName : node.qualifiedName = fact.qualifiedName
  range : node.range = fact.range
  path : node.path = file.path
  language : node.language = file.language
  exported : node.isExported = fact.exported
  parent : node.parent? = fact.parent.bind file.symbol?

/-- The node shows an import of a file. -/
structure Node.ShowsImport (node : Node) (file : SourceFile) (fact : ImportFact) : Prop where
  kind : node.kind = .importDecl
  name : node.name = some fact.displayName
  qualifiedName : node.qualifiedName = fact.displayName
  range : node.range = fact.range
  path : node.path = file.path
  language : node.language = file.language
  exported : node.isExported = false
  parent : node.parent? = none
  spelled : ∃ binding, node.detail = .importDecl {
    specifier := fact.specifier
    member := fact.member
    renamed := fact.renamed
    wildcard := fact.wildcard
    binding }

namespace Workspace

/-- Files, nodes and the edges between the nodes of a file go together. -/
structure Structured (workspace : Workspace) : Prop where
  /-- One file node for each file, at its path, and no other. -/
  files : ∀ path id, (∃ file ∈ workspace.files, file.path = path ∧ file.node = id) ↔
    ∃ node, workspace.graph.node? id = some node ∧ node.kind = .file ∧ node.path = path
  paths : (workspace.files.map SourceFile.path).Nodup
  nodes : (workspace.files.map SourceFile.node).Nodup
  /-- Lists go along with the facts. -/
  parallel : ∀ file ∈ workspace.files, file.symbols.length = file.facts.symbols.length ∧
    file.imports.length = file.facts.imports.length ∧
    file.plans.length = file.facts.imports.length ∧ (file.symbols ++ file.imports).Nodup
  symbols : ∀ file ∈ workspace.files, ∀ (index : Nat) id fact, file.symbols[index]? = some id →
    file.facts.symbols[index]? = some fact →
    ∃ node, workspace.graph.node? id = some node ∧ node.ShowsSymbol file fact
  imports : ∀ file ∈ workspace.files, ∀ (index : Nat) id fact, file.imports[index]? = some id →
    file.facts.imports[index]? = some fact →
    ∃ node, workspace.graph.node? id = some node ∧ node.ShowsImport file fact
  /-- Every symbol and every import is listed by one file. -/
  symbolOwner : ∀ id node, workspace.graph.node? id = some node → node.kind.isSymbol = true →
    ∃! file, file ∈ workspace.files ∧ id ∈ file.symbols
  importOwner : ∀ id node, workspace.graph.node? id = some node → node.kind = .importDecl →
    ∃! file, file ∈ workspace.files ∧ id ∈ file.imports
  lists : ∀ file ∈ workspace.files, ∃ node errors, workspace.graph.node? file.node = some node ∧
    node.detail = .file file.symbols file.imports errors
  /-- Edges are the ones that lists and parents call for. -/
  defines : ∀ source target, workspace.graph.hasEdge ⟨source, target, .defines⟩ ↔
    ∃ file ∈ workspace.files, source = file.node ∧ target ∈ file.symbols
  fileImports : ∀ file ∈ workspace.files, ∀ target,
    workspace.graph.hasEdge ⟨file.node, target, .imports⟩ ↔ target ∈ file.imports
  encloses : ∀ parent child, workspace.graph.Encloses parent child ↔
    ∃ file ∈ workspace.files, Nests file.facts.symbols file.symbols parent child
  /-- Containment is a forest. -/
  oneParent : ∀ parent other child, workspace.graph.Encloses parent child →
    workspace.graph.Encloses other child → parent = other
  acyclic : ∀ id, ¬ Relation.TransGen workspace.graph.Encloses id id

section Structured

variable {environment : Environment} {workspace : Workspace}
  (hsound : workspace.Sound environment)

include hsound

theorem Sound.files_iff (path : Path) (id : NodeId) :
    (∃ file ∈ workspace.files, file.path = path ∧ file.node = id) ↔
      ∃ node, workspace.graph.node? id = some node ∧ node.kind = .file ∧ node.path = path := by
  constructor
  · rintro ⟨file, hfile, rfl, rfl⟩
    obtain ⟨node, errors, hnode, hkind, hpath, -⟩ := (hsound.held file hfile).own
    exact ⟨node, hnode, hkind, hpath⟩
  · rintro ⟨node, hnode, hkind, rfl⟩
    obtain ⟨file, hfile, hid, hpath⟩ := hsound.exists_file_of_kind hnode hkind
    exact ⟨file, hfile, hpath.symm, hid.symm⟩

theorem Sound.showsSymbol {file : SourceFile} (hfile : file ∈ workspace.files) {index : Nat}
    {id : NodeId} {fact : SymbolFact} (hid : file.symbols[index]? = some id)
    (hfact : file.facts.symbols[index]? = some fact) :
    ∃ node, workspace.graph.node? id = some node ∧ node.ShowsSymbol file fact := by
  obtain ⟨hdrawn, -⟩ := hsound.drawn file hfile not_false
  exact ⟨_, hdrawn.symbol index id fact hid hfact, rfl, rfl, rfl, rfl, rfl, rfl, rfl, rfl⟩

theorem Sound.showsImport {file : SourceFile} (hfile : file ∈ workspace.files) {index : Nat}
    {id : NodeId} {fact : ImportFact} (hid : file.imports[index]? = some id)
    (hfact : file.facts.imports[index]? = some fact) :
    ∃ node, workspace.graph.node? id = some node ∧ node.ShowsImport file fact := by
  obtain ⟨hdrawn, -⟩ := hsound.drawn file hfile not_false
  obtain ⟨binding, hnode⟩ := hdrawn.imported index id fact hid hfact
  exact ⟨_, hnode, rfl, rfl, rfl, rfl, rfl, rfl, rfl, rfl, binding, rfl⟩

theorem Sound.exists_symbolOwner {id : NodeId} {node : Node}
    (hnode : workspace.graph.node? id = some node) (hkind : node.kind.isSymbol = true) :
    ∃! file, file ∈ workspace.files ∧ id ∈ file.symbols := by
  obtain ⟨file, hfile, hid⟩ := hsound.isSymbol_of_kind hnode hkind
  refine ⟨file, ⟨hfile, hid⟩, ?_⟩
  rintro other ⟨hother, hidOther⟩
  exact hsound.eq_of_mem hother hfile (SourceFile.mem_nodes_of_symbol hidOther)
    (SourceFile.mem_nodes_of_symbol hid)

theorem Sound.exists_importOwner {id : NodeId} {node : Node}
    (hnode : workspace.graph.node? id = some node) (hkind : node.kind = .importDecl) :
    ∃! file, file ∈ workspace.files ∧ id ∈ file.imports := by
  obtain ⟨file, hfile, hid⟩ := hsound.covered id node hnode fun h => by
    rw [h] at hkind
    cases hkind
  have himport : id ∈ file.imports := by
    rcases List.mem_cons.1 hid with rfl | hid
    · have hown := hsound.kind_of_node hfile hnode
      rw [hkind] at hown
      cases hown
    · refine (List.mem_append.1 hid).resolve_left fun hid => ?_
      have hsymbol := hsound.kind_of_symbol hfile hid hnode
      rw [hkind] at hsymbol
      cases hsymbol
  refine ⟨file, ⟨hfile, himport⟩, ?_⟩
  rintro other ⟨hother, hidOther⟩
  exact hsound.eq_of_mem hother hfile (SourceFile.mem_nodes_of_import hidOther) hid

/-- A file node is no import, so the import edges that leave it lead to the imports it lists. -/
theorem Sound.fileImports_iff {file : SourceFile} (hfile : file ∈ workspace.files)
    (target : NodeId) :
    workspace.graph.hasEdge ⟨file.node, target, .imports⟩ ↔ target ∈ file.imports := by
  refine ⟨fun hedge => ?_, hsound.wired.lists file hfile target⟩
  rcases hsound.wired.imports _ _ hedge with ⟨other, hother, hsame, htarget⟩ | ⟨other, hother, hid⟩
  · have heq := hsound.eq_of_mem hfile hother SourceFile.node_mem_nodes
      (hsame ▸ SourceFile.node_mem_nodes)
    exact heq ▸ htarget
  · obtain ⟨node, hnode, -⟩ := hsound.exists_node hfile SourceFile.node_mem_nodes
    have hkind := hsound.kind_of_node hfile hnode
    rw [hsound.kind_of_import hother hid hnode] at hkind
    cases hkind

/-! ### Containment -/

/-- What encloses a symbol stands before it in the same file. -/
theorem Sound.encloses_cases {parent child : NodeId}
    (hencloses : workspace.graph.Encloses parent child) :
    ∃ file ∈ workspace.files, ∃ (outer index : Nat) (fact : SymbolFact),
      file.facts.symbols[index]? = some fact ∧ fact.parent = some outer ∧ outer < index ∧
      file.symbols[outer]? = some parent ∧ file.symbols[index]? = some child := by
  obtain ⟨file, hfile, index, outer, fact, hfact, hparent, hin, hat⟩ :=
    (hsound.wired.contains parent child).1 hencloses
  have hlt := ((hsound.parallel file hfile).formed.symbols index fact hfact).parent outer hparent
  exact ⟨file, hfile, outer, index, fact, hfact, hparent, hlt, hin, hat⟩

theorem Sound.symbols_nodup {file : SourceFile} (hfile : file ∈ workspace.files) :
    file.symbols.Nodup :=
  (List.nodup_append.1 (List.nodup_cons.1 (hsound.parallel file hfile).nodup).2).1

/-- A node is a symbol of one file, at one index. -/
theorem Sound.index_eq {first second : SourceFile} (hfirst : first ∈ workspace.files)
    (hsecond : second ∈ workspace.files) {id : NodeId} {index index' : Nat}
    (hat : first.symbols[index]? = some id) (hat' : second.symbols[index']? = some id) :
    first = second ∧ index = index' := by
  obtain rfl := hsound.eq_of_mem hfirst hsecond
    (SourceFile.mem_nodes_of_symbol (List.mem_of_getElem? hat))
    (SourceFile.mem_nodes_of_symbol (List.mem_of_getElem? hat'))
  refine ⟨rfl, ?_⟩
  obtain ⟨hlt, -⟩ := List.getElem?_eq_some_iff.1 hat
  exact (List.getElem?_inj hlt (hsound.symbols_nodup hfirst)).1 (hat.trans hat'.symm)

theorem Sound.parent_eq {parent other child : NodeId}
    (hparent : workspace.graph.Encloses parent child)
    (hother : workspace.graph.Encloses other child) : parent = other := by
  obtain ⟨file, hfile, outer, index, fact, hfact, houter, -, hin, hat⟩ :=
    hsound.encloses_cases hparent
  obtain ⟨file', hfile', outer', index', fact', hfact', houter', -, hin', hat'⟩ :=
    hsound.encloses_cases hother
  obtain ⟨rfl, rfl⟩ := hsound.index_eq hfile hfile' hat hat'
  rw [hfact] at hfact'
  obtain rfl := Option.some.inj hfact'
  rw [houter] at houter'
  obtain rfl := Option.some.inj houter'
  exact Option.some.inj (hin.symm.trans hin')

/-- Going inwards, indices grow. -/
theorem Sound.index_lt_of_encloses {outermost inner : NodeId}
    (hinside : Relation.TransGen workspace.graph.Encloses outermost inner) :
    ∃ file ∈ workspace.files, ∃ outer index : Nat, outer < index ∧
      file.symbols[outer]? = some outermost ∧ file.symbols[index]? = some inner := by
  induction hinside with
  | single hstep =>
    obtain ⟨file, hfile, outer, index, -, -, -, hlt, hin, hat⟩ := hsound.encloses_cases hstep
    exact ⟨file, hfile, outer, index, hlt, hin, hat⟩
  | tail _ hstep ih =>
    obtain ⟨file, hfile, first, middle, hlt, hfirst, hmiddle⟩ := ih
    obtain ⟨file', hfile', outer, index, -, -, -, hlt', hin, hat⟩ := hsound.encloses_cases hstep
    obtain ⟨rfl, rfl⟩ := hsound.index_eq hfile hfile' hmiddle hin
    exact ⟨file, hfile, first, index, hlt.trans hlt', hfirst, hat⟩

theorem Sound.not_inside_itself (id : NodeId) :
    ¬ Relation.TransGen workspace.graph.Encloses id id := by
  intro hcycle
  obtain ⟨file, hfile, outer, index, hlt, hin, hat⟩ := hsound.index_lt_of_encloses hcycle
  exact hlt.ne (hsound.index_eq hfile hfile hin hat).2

/-- **A sound workspace has the structure of its files.** -/
theorem Sound.structured : workspace.Structured where
  files := hsound.files_iff
  paths := hsound.ordered.nodup
  nodes := hsound.nodes_nodup
  parallel := by
    intro file hfile
    have hparallel := hsound.parallel file hfile
    exact ⟨hparallel.symbols, hparallel.imports, hparallel.plans,
      (List.nodup_cons.1 hparallel.nodup).2⟩
  symbols := fun _ hfile _ _ _ hid hfact => hsound.showsSymbol hfile hid hfact
  imports := fun _ hfile _ _ _ hid hfact => hsound.showsImport hfile hid hfact
  symbolOwner := fun _ _ hnode hkind => hsound.exists_symbolOwner hnode hkind
  importOwner := fun _ _ hnode hkind => hsound.exists_importOwner hnode hkind
  lists := by
    intro file hfile
    obtain ⟨node, errors, hnode, -, -, hdetail⟩ := (hsound.held file hfile).own
    exact ⟨node, errors, hnode, hdetail⟩
  defines := hsound.wired.defines
  fileImports := fun _ hfile target => hsound.fileImports_iff hfile target
  encloses := hsound.wired.contains
  oneParent := fun _ _ _ hparent hother => hsound.parent_eq hparent hother
  acyclic := hsound.not_inside_itself

end Structured

/-! ### Bindings -/

/-- Bindings and the edges that leave imports go together, and so do outside modules and the imports
of them. -/
structure Coherent (workspace : Workspace) : Prop where
  /-- An import stands for what its one edge leads to, or has no edge. -/
  imports : ∀ id node, workspace.graph.node? id = some node → node.kind = .importDecl →
    ∃ file ∈ workspace.files, id ∈ file.imports ∧
      (∀ target, node.binding? = some (.resolved target) ↔
        workspace.graph.importTargets id = [target] ∧
          ∃ found, workspace.graph.node? target = some found ∧
            (found.kind = .file ∨ found.kind.isSymbol = true)) ∧
      (∀ name, node.binding? = some (.external name) ↔
        ∃ module, workspace.externals.get? (file.language, name) = some module ∧
          workspace.graph.importTargets id = [module]) ∧
      ((∃ reason, node.binding? = some (.unresolved reason)) ↔
        workspace.graph.importTargets id = [])
  /-- The registered modules are the nodes of outside modules, one for each language and name. -/
  keyed : workspace.externals.keys.Nodup
  registered : ∀ language name id, workspace.externals.get? (language, name) = some id ↔
    ∃ node, workspace.graph.node? id = some node ∧ node.kind = .external ∧
      node.language = language ∧ node.name = some name
  imported : ∀ id node, workspace.graph.node? id = some node → node.kind = .external →
    ∃ source, workspace.graph.hasEdge ⟨source, id, .imports⟩

section Coherent

variable {environment : Environment} {workspace : Workspace}

theorem mem_importTargets {graph : Graph} {id target : NodeId} :
    target ∈ graph.importTargets id ↔ graph.hasEdge ⟨id, target, .imports⟩ := by
  rw [Graph.importTargets, Graph.mem_targets]

theorem importTargets_nodup {graph : Graph} (hsound : graph.Sound) (id : NodeId) :
    (graph.importTargets id).Nodup := by
  have hkeys : ((graph.edgesFrom id).filter fun edge => edge.kind = .imports).map Edge.key =
      (graph.importTargets id).map fun target => ⟨id, target, .imports⟩ := by
    rw [Graph.importTargets, List.map_map]
    refine List.map_congr_left fun edge hedge => ?_
    obtain ⟨hfrom, hkind⟩ := List.mem_filter.1 hedge
    have hsource : edge.source = id := of_decide_eq_true (List.mem_filter.1 hfrom).2
    have hkind : edge.kind = .imports := of_decide_eq_true hkind
    rw [Function.comp_apply, Edge.key, hsource, hkind]
  refine List.Nodup.of_map (fun target : NodeId => (⟨id, target, .imports⟩ : EdgeKey)) ?_
  rw [← hkeys]
  exact ((List.filter_sublist.trans List.filter_sublist).map Edge.key).nodup hsound.keys

theorem importTargets_eq_singleton_iff {graph : Graph} (hsound : graph.Sound)
    {id target : NodeId} : graph.importTargets id = [target] ↔
      ∀ other, graph.hasEdge ⟨id, other, .imports⟩ ↔ other = target := by
  constructor
  · intro htargets other
    rw [← mem_importTargets, htargets, List.mem_singleton]
  · intro hedges
    refine List.perm_singleton.1 ((List.perm_ext_iff_of_nodup (importTargets_nodup hsound id)
      (List.nodup_singleton target)).2 fun other => ?_)
    rw [mem_importTargets, hedges, List.mem_singleton]

theorem importTargets_eq_nil_iff {graph : Graph} {id : NodeId} :
    graph.importTargets id = [] ↔ ∀ other, ¬ graph.hasEdge ⟨id, other, .imports⟩ := by
  rw [List.eq_nil_iff_forall_not_mem]
  exact forall_congr' fun other => not_congr mem_importTargets

variable (hsound : workspace.Sound environment)

include hsound

/-- The import edges of a file's imports, read off the bindings. -/
theorem Sound.binds_cases {file : SourceFile} (hfile : file ∈ workspace.files) {id : NodeId}
    (hid : id ∈ file.imports) {node : Node} (hnode : workspace.graph.node? id = some node) :
    ∃ binding, node.binding? = some binding ∧ workspace.Binds file.language id binding := by
  obtain ⟨found, binding, language, hfound, hbinding, hlanguage, hbinds⟩ :=
    hsound.bound file hfile id hid
  rw [hnode] at hfound
  obtain rfl := Option.some.inj hfound
  exact ⟨binding, hbinding, hlanguage not_false ▸ hbinds⟩

/-- What an import is bound to is no outside module. -/
theorem Sound.ne_of_externals {key : Language × String} {module target : NodeId} {found : Node}
    (hmodule : workspace.externals.get? key = some module)
    (hfound : workspace.graph.node? target = some found)
    (hkind : found.kind = .file ∨ found.kind.isSymbol = true) : target ≠ module := by
  rintro rfl
  rw [(hsound.registered.shown key.1 key.2 target).1 hmodule] at hfound
  obtain rfl := Option.some.inj hfound
  rcases hkind with hkind | hkind <;> cases hkind

theorem Sound.externals_inj {language : Language} {name name' : String} {module : NodeId}
    (hmodule : workspace.externals.get? (language, name) = some module)
    (hmodule' : workspace.externals.get? (language, name') = some module) : name = name' := by
  have hshown := (hsound.registered.shown _ _ _).1 hmodule
  rw [(hsound.registered.shown _ _ _).1 hmodule'] at hshown
  have hsame : some name' = some name := congrArg Node.name (Option.some.inj hshown)
  exact (Option.some.inj hsame).symm

/-- A binding and its edges determine each other. -/
theorem Sound.binding_iff {file : SourceFile} (hfile : file ∈ workspace.files) {id : NodeId}
    (hid : id ∈ file.imports) {node : Node} (hnode : workspace.graph.node? id = some node) :
    (∀ target, node.binding? = some (.resolved target) ↔
      workspace.graph.importTargets id = [target] ∧
        ∃ found, workspace.graph.node? target = some found ∧
          (found.kind = .file ∨ found.kind.isSymbol = true)) ∧
    (∀ name, node.binding? = some (.external name) ↔
      ∃ module, workspace.externals.get? (file.language, name) = some module ∧
        workspace.graph.importTargets id = [module]) ∧
    ((∃ reason, node.binding? = some (.unresolved reason)) ↔
      workspace.graph.importTargets id = []) := by
  obtain ⟨binding, hbinding, hbinds⟩ := hsound.binds_cases hfile hid hnode
  rw [hbinding]
  cases binding with
  | resolved target =>
    obtain ⟨⟨found, hfound, hkind⟩, hedges⟩ := hbinds
    have htargets := (importTargets_eq_singleton_iff hsound.graph).2 hedges
    rw [htargets]
    refine ⟨fun other => ⟨?_, ?_⟩, fun name => iff_of_false (fun h => by cases h) ?_,
      iff_of_false (fun ⟨_, h⟩ => by cases h) fun h => by cases h⟩
    · rintro ⟨⟩
      exact ⟨rfl, found, hfound, hkind⟩
    · rintro ⟨⟨⟩, -⟩
      rfl
    · rintro ⟨module, hmodule, ⟨⟩⟩
      exact hsound.ne_of_externals hmodule hfound hkind rfl
  | unresolved reason =>
    have htargets := importTargets_eq_nil_iff.2 hbinds
    rw [htargets]
    refine ⟨fun target => iff_of_false (fun h => by cases h) ?_,
      fun name => iff_of_false (fun h => by cases h) ?_, iff_of_true ⟨reason, rfl⟩ rfl⟩
    · rintro ⟨⟨⟩, -⟩
    · rintro ⟨_, _, ⟨⟩⟩
  | external name =>
    obtain ⟨module, hmodule, hedges⟩ := hbinds
    have htargets := (importTargets_eq_singleton_iff hsound.graph).2 hedges
    rw [htargets]
    refine ⟨fun target => iff_of_false (fun h => by cases h) ?_, fun other => ⟨?_, ?_⟩,
      iff_of_false (fun ⟨_, h⟩ => by cases h) fun h => by cases h⟩
    · rintro ⟨⟨⟩, found, hfound, hkind⟩
      exact hsound.ne_of_externals hmodule hfound hkind rfl
    · rintro ⟨⟩
      exact ⟨module, hmodule, rfl⟩
    · rintro ⟨_, hother, ⟨⟩⟩
      rw [hsound.externals_inj hmodule hother]

/-- **In a sound workspace without forgotten modules, bindings and edges go together.** -/
theorem Sound.coherent (htended : workspace.Tended) : workspace.Coherent where
  imports := by
    intro id node hnode hkind
    obtain ⟨file, ⟨hfile, hid⟩, -⟩ := hsound.exists_importOwner hnode hkind
    exact ⟨file, hfile, hid, hsound.binding_iff hfile hid hnode⟩
  keyed := hsound.registered.keyed
  registered := by
    intro language name id
    rw [hsound.registered.shown]
    constructor
    · intro hshown
      exact ⟨_, hshown, rfl, rfl, rfl⟩
    · rintro ⟨node, hnode, hkind, rfl, hname⟩
      obtain ⟨language, name', hget⟩ := hsound.registered.covered id node hnode hkind
      have hshown := (hsound.registered.shown language name' id).1 hget
      rw [hnode] at hshown
      obtain rfl := Option.some.inj hshown
      obtain rfl : name' = name := Option.some.inj hname
      exact hnode
  imported := by
    intro id node hnode hkind
    obtain ⟨language, name, hget⟩ := hsound.registered.covered id node hnode hkind
    exact htended (language, name) id hget

end Coherent

end Workspace

end CodeGraph
