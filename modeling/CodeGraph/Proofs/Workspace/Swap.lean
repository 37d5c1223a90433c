import CodeGraph.Proofs.Workspace.Files

/-!
# Replacing the file at a path

The file at a path goes, another comes, or one takes the place of the other, and the graph follows.
Everything that belongs to other files is kept: what they show, which edges they have, and what their
imports stand for, unless that was one of the nodes that went.
-/

namespace CodeGraph

/-- Nodes that show what the facts say belong to the file. -/
theorem SourceFile.Drawn.held {graph : Graph} {file : SourceFile} (hdrawn : file.Drawn graph)
    (hparallel : file.Parallel) : file.Held graph := by
  refine ⟨⟨_, _, hdrawn.own, rfl, rfl, rfl⟩, ?_, ?_⟩
  · intro index id fact hid hfact
    exact ⟨_, _, _, hdrawn.symbol index id fact hid hfact, rfl, rfl, rfl⟩
  · intro id hid
    obtain ⟨index, hindex⟩ := List.mem_iff_getElem?.1 hid
    have hlt : index < file.facts.imports.length :=
      hparallel.imports ▸ (List.getElem?_eq_some_iff.1 hindex).1
    obtain ⟨binding, hnode⟩ :=
      hdrawn.imported index id _ hindex (List.getElem?_eq_getElem hlt)
    exact ⟨_, _, hnode, rfl, rfl, rfl⟩

/-- What is not among the new nodes was there before and is not among the old. -/
theorem Pass.Replaced.exists_old {start after : Graph} {old new : List NodeId}
    (hreplaced : Pass.Replaced start old new after) {id : NodeId} {now : Node}
    (hnow : after.node? id = some now) (hnew : id ∉ new) : id ∉ old ∧ ∃ before,
      start.node? id = some before ∧
        before.Survives (fun other => other ∈ old ∧ other ∉ new) now := by
  have hold : id ∉ old := by
    intro hold
    rw [hreplaced.dead id hold hnew] at hnow
    cases hnow
  refine ⟨hold, ?_⟩
  cases hbefore : start.node? id with
  | none =>
    rw [hreplaced.absent id hnew hbefore] at hnow
    cases hnow
  | some before =>
    obtain ⟨found, hfound, hsurvives⟩ := hreplaced.kept id before hold hnew hbefore
    rw [hnow] at hfound
    exact ⟨before, rfl, Option.some.inj hfound ▸ hsurvives⟩

namespace Workspace

/-- The nodes of a file, if there is one. -/
def nodesOf (file? : Option SourceFile) : List NodeId :=
  (file?.map SourceFile.nodes).getD []

theorem mem_nodesOf {file? : Option SourceFile} {id : NodeId} :
    id ∈ nodesOf file? ↔ ∃ file, file? = some file ∧ id ∈ file.nodes := by
  cases file? <;> simp [nodesOf]

/-- What the file that comes brings along: nodes that show its facts, and bindings that its imports
had before. -/
structure Brought (environment : Environment) (before : Graph) (gone : NodeId → Prop)
    (path : Path) (after : Graph) (file : SourceFile) : Prop where
  path_eq : file.path = path
  normal : path.IsNormal
  parallel : file.Parallel
  drawn : file.Drawn after
  current : file.Current environment
  keeps : ∀ id ∈ file.imports, ∃ node binding, after.node? id = some node ∧
    node.binding? = some binding ∧ Pass.Keeps gone before id binding

/-- The edges that a file calls for by itself. -/
def Calls (file : SourceFile) (key : EdgeKey) : Prop :=
  (∃ id ∈ file.symbols, key = ⟨file.node, id, .defines⟩) ∨
    (∃ parent child, Nests file.facts.symbols file.symbols parent child ∧
      key = ⟨parent, child, .contains⟩) ∨
    ∃ id ∈ file.imports, key = ⟨file.node, id, .imports⟩

/-- Another file, or none, at a path. -/
structure Swapped (environment : Environment) (before : Workspace) (path : Path)
    (put? : Option SourceFile) (after : Workspace) : Prop where
  replaced : Pass.Replaced before.graph (nodesOf (before.file? path)) (nodesOf put?) after.graph
  brought : ∀ file, put? = some file → Brought environment before.graph
    (fun id => id ∈ nodesOf (before.file? path) ∧ id ∉ nodesOf put?) path after.graph file
  /-- A node that stays keeps its place in the file. -/
  places : ∀ old, before.file? path = some old → ∀ file, put? = some file →
    ∀ id ∈ file.nodes, (id = old.node → id = file.node) ∧
      (id ∈ old.symbols → id ∈ file.symbols) ∧ (id ∈ old.imports → id ∈ file.imports)
  hasEdge : ∀ key, after.graph.hasEdge key ↔ (∃ file, put? = some file ∧ Calls file key) ∨
    (before.graph.hasEdge key ∧
      ¬ (key.kind = .contains ∧ ∃ file, put? = some file ∧ key.target ∈ file.symbols) ∧
      ¬ (key.source ∈ nodesOf (before.file? path) ∧ key.source ∉ nodesOf put?) ∧
      ¬ (key.target ∈ nodesOf (before.file? path) ∧ key.target ∉ nodesOf put?))
  mem_files : ∀ file, file ∈ after.files ↔
    put? = some file ∨ (file ∈ before.files ∧ file.path ≠ path)
  ordered : Ordered after.files
  externals : after.externals = before.externals
  indexSorted : ∀ place, PathSet.Sorted (after.indexedAt place)
  mem_indexedAt : ∀ place other, other ∈ after.indexedAt place ↔
    (other ∈ before.indexedAt place ∧ other ≠ path) ∨
      (other = path ∧ ∃ file, put? = some file ∧ place ∈ placesOf file.plans)

section Swapped

variable {environment : Environment} {stale pending : Path → Prop} {before after : Workspace}
  {path : Path} {put? : Option SourceFile}
  (hstands : before.Stands environment stale pending)
  (hswapped : Swapped environment before path put? after)

include hstands hswapped

omit hstands in
theorem Swapped.mem_of_ne {file : SourceFile} (hfile : file ∈ before.files)
    (hpath : file.path ≠ path) : file ∈ after.files :=
  (hswapped.mem_files file).2 (.inr ⟨hfile, hpath⟩)

omit hstands in
theorem Swapped.mem_of_put {file : SourceFile} (hput : put? = some file) : file ∈ after.files :=
  (hswapped.mem_files file).2 (.inl hput)

/-- A node that was there before is among the new ones only if it was among the old ones. -/
theorem Swapped.mem_old {id : NodeId} {node : Node} (hnode : before.graph.node? id = some node)
    (hnew : id ∈ nodesOf put?) : id ∈ nodesOf (before.file? path) :=
  (hswapped.replaced.fresh id hnew).resolve_right
    (Nat.not_le_of_lt (hstands.graph.lt_nextId hnode))

omit hswapped in
/-- The nodes of other files are not among the old ones. -/
theorem Stands.notMem_nodesOf {file : SourceFile} (hfile : file ∈ before.files)
    (hpath : file.path ≠ path) {id : NodeId} (hid : id ∈ file.nodes) :
    id ∉ nodesOf (before.file? path) := by
  intro hold
  obtain ⟨old, hold, hmem⟩ := mem_nodesOf.1 hold
  obtain ⟨holdFile, holdPath⟩ := file?_mem hold
  exact hpath (hstands.eq_of_mem hfile holdFile hid hmem ▸ holdPath)

theorem Swapped.notMem {file : SourceFile} (hfile : file ∈ before.files)
    (hpath : file.path ≠ path) {id : NodeId} (hid : id ∈ file.nodes) :
    id ∉ nodesOf (before.file? path) ∧ id ∉ nodesOf put? := by
  have hold := hstands.notMem_nodesOf hfile hpath hid
  obtain ⟨node, hnode, -⟩ := hstands.exists_node hfile hid
  exact ⟨hold, fun hnew => hold (hswapped.mem_old hstands hnode hnew)⟩

/-- A node of the file that was there, if it stays, is a node of the file that came. -/
theorem Swapped.exists_put {file : SourceFile} (hfile : file ∈ before.files)
    (hpath : file.path = path) {id : NodeId} (hid : id ∈ file.nodes)
    (hstays : ¬ (id ∈ nodesOf (before.file? path) ∧ id ∉ nodesOf put?)) :
    ∃ new, put? = some new ∧ (id = file.node → id = new.node) ∧
      (id ∈ file.symbols → id ∈ new.symbols) ∧ (id ∈ file.imports → id ∈ new.imports) := by
  have hold : before.file? path = some file := hpath ▸ hstands.ordered.file?_self hfile
  have hnew : id ∈ nodesOf put? := by
    by_contra hnew
    exact hstays ⟨mem_nodesOf.2 ⟨file, hold, hid⟩, hnew⟩
  obtain ⟨new, hput, hmem⟩ := mem_nodesOf.1 hnew
  exact ⟨new, hput, hswapped.places file hold new hput id hmem⟩

theorem Swapped.parallel {file : SourceFile} (hfile : file ∈ after.files) : file.Parallel := by
  rcases (hswapped.mem_files file).1 hfile with hput | ⟨hfile, -⟩
  · exact (hswapped.brought file hput).parallel
  · exact hstands.parallel file hfile

/-! ### Nodes -/

/-- A node of another file is what is left of it. -/
theorem Swapped.exists_now {file : SourceFile} (hfile : file ∈ before.files)
    (hpath : file.path ≠ path) {id : NodeId} (hid : id ∈ file.nodes) {old : Node}
    (hold : before.graph.node? id = some old) : ∃ now, after.graph.node? id = some now ∧
      old.Survives (fun other => other ∈ nodesOf (before.file? path) ∧ other ∉ nodesOf put?) now :=
  have hnot := hswapped.notMem hstands hfile hpath hid
  hswapped.replaced.kept id old hnot.1 hnot.2 hold

/-- Files and symbols of other files are exactly what they were. -/
theorem Swapped.node?_of_binding?_eq_none {file : SourceFile} (hfile : file ∈ before.files)
    (hpath : file.path ≠ path) {id : NodeId} (hid : id ∈ file.nodes) {old : Node}
    (hold : before.graph.node? id = some old) (hbinding : old.binding? = none)
    (hlisted : ∀ member ∈ old.listed, member ∈ file.nodes) :
    after.graph.node? id = some old := by
  obtain ⟨now, hnow, hsurvives⟩ := hswapped.exists_now hstands hfile hpath hid hold
  rw [hnow, hsurvives.eq_of_listed (fun _ h => by cases hbinding ▸ h) fun member hmember hgone =>
    (hswapped.notMem hstands hfile hpath (hlisted member hmember)).1 hgone.1]

theorem Swapped.held_other {file : SourceFile} (hfile : file ∈ before.files)
    (hpath : file.path ≠ path) : file.Held after.graph := by
  have hheld := hstands.held file hfile
  have hparallel := hstands.parallel file hfile
  refine ⟨?_, ?_, ?_⟩
  · obtain ⟨node, errors, hnode, hkind, hnodePath, hdetail⟩ := hheld.own
    refine ⟨node, errors, ?_, hkind, hnodePath, hdetail⟩
    refine hswapped.node?_of_binding?_eq_none hstands hfile hpath SourceFile.node_mem_nodes hnode ?_ ?_
    · rw [Node.binding?, hdetail]
    · intro member hmember
      rw [Node.listed, hdetail] at hmember
      exact List.mem_cons_of_mem _ hmember
  · intro index id fact hid hfact
    obtain ⟨node, parent, exported, hnode, hkind, hnodePath, hdetail⟩ :=
      hheld.symbol index id fact hid hfact
    refine ⟨node, parent, exported, ?_, hkind, hnodePath, hdetail⟩
    refine hswapped.node?_of_binding?_eq_none hstands hfile hpath
      (SourceFile.mem_nodes_of_symbol (List.mem_of_getElem? hid)) hnode ?_ ?_
    · rw [Node.binding?, hdetail]
    · intro member hmember
      rw [Node.listed, hdetail] at hmember
      cases hmember
  · intro id hid
    obtain ⟨node, detail, hnode, hkind, hnodePath, hdetail⟩ := hheld.imported id hid
    obtain ⟨now, hnow, hsurvives⟩ := hswapped.exists_now hstands hfile hpath
      (SourceFile.mem_nodes_of_import hid) hnode
    obtain ⟨detail', hdetail'⟩ := hsurvives.exists_detail hdetail
    exact ⟨now, detail', hnow, hsurvives.kind_eq.trans hkind, hsurvives.path_eq.trans hnodePath,
      hdetail'⟩

theorem Swapped.drawn_other {file : SourceFile} (hfile : file ∈ before.files)
    (hpath : file.path ≠ path) (hdrawn : file.Drawn before.graph) : file.Drawn after.graph := by
  refine ⟨?_, ?_, ?_⟩
  · exact hswapped.node?_of_binding?_eq_none hstands hfile hpath SourceFile.node_mem_nodes hdrawn.own rfl
      fun member hmember => List.mem_cons_of_mem _ hmember
  · intro index id fact hid hfact
    exact hswapped.node?_of_binding?_eq_none hstands hfile hpath
      (SourceFile.mem_nodes_of_symbol (List.mem_of_getElem? hid))
      (hdrawn.symbol index id fact hid hfact) rfl fun member hmember => by cases hmember
  · intro index id fact hid hfact
    obtain ⟨binding, hnode⟩ := hdrawn.imported index id fact hid hfact
    obtain ⟨now, hnow, hsurvives⟩ := hswapped.exists_now hstands hfile hpath
      (SourceFile.mem_nodes_of_import (List.mem_of_getElem? hid)) hnode
    obtain ⟨kept, rfl, -⟩ := hsurvives.exists_rebind rfl
    exact ⟨kept, by rw [hnow, Node.rebind_rebind]⟩

theorem Swapped.drawn {file : SourceFile} (hfile : file ∈ after.files)
    (hstale : ¬ (stale file.path ∧ file.path ≠ path)) :
    file.Drawn after.graph ∧ file.Current environment := by
  rcases (hswapped.mem_files file).1 hfile with hput | ⟨hfile, hpath⟩
  · exact ⟨(hswapped.brought file hput).drawn, (hswapped.brought file hput).current⟩
  · obtain ⟨hdrawn, hcurrent⟩ := hstands.drawn file hfile fun h => hstale ⟨h, hpath⟩
    exact ⟨hswapped.drawn_other hstands hfile hpath hdrawn, hcurrent⟩

theorem Swapped.held {file : SourceFile} (hfile : file ∈ after.files) : file.Held after.graph := by
  rcases (hswapped.mem_files file).1 hfile with hput | ⟨hfile, hpath⟩
  · exact (hswapped.brought file hput).drawn.held (hswapped.brought file hput).parallel
  · exact hswapped.held_other hstands hfile hpath

theorem Swapped.covered {id : NodeId} {node : Node} (hnode : after.graph.node? id = some node)
    (hkind : node.kind ≠ .external) : ∃ file ∈ after.files, id ∈ file.nodes := by
  by_cases hnew : id ∈ nodesOf put?
  · obtain ⟨file, hput, hid⟩ := mem_nodesOf.1 hnew
    exact ⟨file, hswapped.mem_of_put hput, hid⟩
  · obtain ⟨hold, old, hbefore, hsurvives⟩ := hswapped.replaced.exists_old hnode hnew
    obtain ⟨file, hfile, hid⟩ := hstands.covered id old hbefore (hsurvives.kind_eq ▸ hkind)
    refine ⟨file, hswapped.mem_of_ne hfile fun hpath => hold ?_, hid⟩
    exact mem_nodesOf.2 ⟨file, hpath ▸ hstands.ordered.file?_self hfile, hid⟩

/-- The nodes of the file that was there are of the project, and so are those of the one that
came. -/
theorem Swapped.notMem_of_external {id : NodeId} {node : Node}
    (hnode : before.graph.node? id = some node) (hkind : node.kind = .external) :
    id ∉ nodesOf (before.file? path) ∧ id ∉ nodesOf put? := by
  have hold : id ∉ nodesOf (before.file? path) := by
    intro hold
    obtain ⟨file, hfile, hid⟩ := mem_nodesOf.1 hold
    obtain ⟨found, hfound, -, hproject⟩ := hstands.exists_node (file?_mem hfile).1 hid
    rw [hnode] at hfound
    exact hproject (Option.some.inj hfound ▸ hkind)
  exact ⟨hold, fun hnew => hold (hswapped.mem_old hstands hnode hnew)⟩

omit hstands in
theorem Swapped.notMem_put_of_external {id : NodeId} {node : Node}
    (hnode : after.graph.node? id = some node) (hkind : node.kind = .external) :
    id ∉ nodesOf put? := by
  intro hnew
  obtain ⟨file, hput, hid⟩ := mem_nodesOf.1 hnew
  have hbrought := hswapped.brought file hput
  obtain ⟨found, hfound, -, hproject⟩ :=
    (hbrought.drawn.held hbrought.parallel).exists_node hbrought.parallel hid
  rw [hnode] at hfound
  exact hproject (Option.some.inj hfound ▸ hkind)

theorem Swapped.registered : after.Registered := by
  refine ⟨hswapped.externals ▸ hstands.registered.keyed, fun language name id => ?_, ?_⟩
  · rw [hswapped.externals, hstands.registered.shown]
    constructor
    · intro hnode
      obtain ⟨hold, hnew⟩ := hswapped.notMem_of_external hstands hnode rfl
      obtain ⟨now, hnow, hsurvives⟩ := hswapped.replaced.kept id _ hold hnew hnode
      rw [hnow, hsurvives.eq_of_listed (fun _ h => by cases h) fun _ hmember => by cases hmember]
    · intro hnode
      obtain ⟨-, old, hbefore, hsurvives⟩ := hswapped.replaced.exists_old hnode
        (hswapped.notMem_put_of_external hnode rfl)
      rw [hbefore, hsurvives.eq_of_external rfl]
  · intro id node hnode hkind
    obtain ⟨-, old, hbefore, hsurvives⟩ := hswapped.replaced.exists_old hnode
      (hswapped.notMem_put_of_external hnode hkind)
    rw [hswapped.externals]
    exact hstands.registered.covered id old hbefore (hsurvives.kind_eq ▸ hkind)

/-! ### Edges -/

/-- Edges between nodes of other files are what they were. -/
theorem Swapped.hasEdge_of_mem {file : SourceFile} (hfile : file ∈ before.files)
    (hpath : file.path ≠ path) {key : EdgeKey} (hsource : key.source ∈ file.nodes)
    (htarget : key.target ∈ file.nodes) (hedge : before.graph.hasEdge key) :
    after.graph.hasEdge key := by
  obtain ⟨hsourceOld, -⟩ := hswapped.notMem hstands hfile hpath hsource
  obtain ⟨htargetOld, htargetNew⟩ := hswapped.notMem hstands hfile hpath htarget
  refine (hswapped.hasEdge key).2 (.inr ⟨hedge, ?_, fun h => hsourceOld h.1,
    fun h => htargetOld h.1⟩)
  rintro ⟨-, put, hput, htarget⟩
  exact htargetNew (mem_nodesOf.2
    ⟨put, hput, SourceFile.mem_nodes_of_symbol htarget⟩)

theorem Swapped.defines_iff (source target : NodeId) :
    after.graph.hasEdge ⟨source, target, .defines⟩ ↔
      ∃ file ∈ after.files, source = file.node ∧ target ∈ file.symbols := by
  constructor
  · intro hedge
    rcases (hswapped.hasEdge _).1 hedge with ⟨put, hput, hcalls⟩ | ⟨hold, -, hsource, htarget⟩
    · rcases hcalls with ⟨id, hid, hkey⟩ | ⟨_, _, _, hkey⟩ | ⟨_, _, hkey⟩ <;> cases hkey
      exact ⟨put, hswapped.mem_of_put hput, rfl, hid⟩
    · obtain ⟨file, hfile, rfl, hid⟩ := (hstands.wired.defines _ _).1 hold
      by_cases hpath : file.path = path
      · obtain ⟨put, hput, hnode, -⟩ :=
          hswapped.exists_put hstands hfile hpath SourceFile.node_mem_nodes hsource
        obtain ⟨put', hput', -, hsymbol, -⟩ := hswapped.exists_put hstands hfile hpath
          (SourceFile.mem_nodes_of_symbol hid) htarget
        obtain rfl := Option.some.inj (hput.symm.trans hput')
        exact ⟨put, hswapped.mem_of_put hput, hnode rfl, hsymbol hid⟩
      · exact ⟨file, hswapped.mem_of_ne hfile hpath, rfl, hid⟩
  · rintro ⟨file, hfile, rfl, hid⟩
    rcases (hswapped.mem_files file).1 hfile with hput | ⟨hfile, hpath⟩
    · exact (hswapped.hasEdge _).2 (.inl ⟨file, hput, .inl ⟨target, hid, rfl⟩⟩)
    · exact hswapped.hasEdge_of_mem hstands hfile hpath SourceFile.node_mem_nodes
        (SourceFile.mem_nodes_of_symbol hid)
        ((hstands.wired.defines _ _).2 ⟨file, hfile, rfl, hid⟩)

theorem Swapped.contains_iff (source target : NodeId) :
    after.graph.hasEdge ⟨source, target, .contains⟩ ↔
      ∃ file ∈ after.files, Nests file.facts.symbols file.symbols source target := by
  constructor
  · intro hedge
    rcases (hswapped.hasEdge _).1 hedge with ⟨put, hput, hcalls⟩ | ⟨hold, hstray, -, htarget⟩
    · rcases hcalls with ⟨_, _, hkey⟩ | ⟨parent, child, hnests, hkey⟩ | ⟨_, _, hkey⟩ <;>
        cases hkey
      exact ⟨put, hswapped.mem_of_put hput, hnests⟩
    · obtain ⟨file, hfile, hnests⟩ := (hstands.wired.contains _ _).1 hold
      refine ⟨file, hswapped.mem_of_ne hfile fun hpath => hstray ⟨rfl, ?_⟩, hnests⟩
      have hid := (mem_of_nests hnests).2
      obtain ⟨put, hput, -, hsymbol, -⟩ := hswapped.exists_put hstands hfile hpath
        (SourceFile.mem_nodes_of_symbol hid) htarget
      exact ⟨put, hput, hsymbol hid⟩
  · rintro ⟨file, hfile, hnests⟩
    rcases (hswapped.mem_files file).1 hfile with hput | ⟨hfile, hpath⟩
    · exact (hswapped.hasEdge _).2 (.inl ⟨file, hput, .inr (.inl ⟨source, target, hnests, rfl⟩)⟩)
    · exact hswapped.hasEdge_of_mem hstands hfile hpath
        (SourceFile.mem_nodes_of_symbol (mem_of_nests hnests).1)
        (SourceFile.mem_nodes_of_symbol (mem_of_nests hnests).2)
        ((hstands.wired.contains _ _).2 ⟨file, hfile, hnests⟩)

/-- An import edge leaves a file for one of its imports, or leaves an import. -/
theorem Swapped.imports_or {source target : NodeId}
    (hedge : after.graph.hasEdge ⟨source, target, .imports⟩) :
    (∃ file ∈ after.files, source = file.node ∧ target ∈ file.imports) ∨
      ∃ file ∈ after.files, source ∈ file.imports := by
  rcases (hswapped.hasEdge _).1 hedge with ⟨put, hput, hcalls⟩ | ⟨hold, -, hsource, htarget⟩
  · rcases hcalls with ⟨_, _, hkey⟩ | ⟨_, _, _, hkey⟩ | ⟨id, hid, hkey⟩ <;> cases hkey
    exact .inl ⟨put, hswapped.mem_of_put hput, rfl, hid⟩
  · rcases hstands.wired.imports _ _ hold with ⟨file, hfile, rfl, hid⟩ | ⟨file, hfile, hid⟩
    · by_cases hpath : file.path = path
      · obtain ⟨put, hput, hnode, -⟩ :=
          hswapped.exists_put hstands hfile hpath SourceFile.node_mem_nodes hsource
        obtain ⟨put', hput', -, -, himport⟩ := hswapped.exists_put hstands hfile hpath
          (SourceFile.mem_nodes_of_import hid) htarget
        obtain rfl := Option.some.inj (hput.symm.trans hput')
        exact .inl ⟨put, hswapped.mem_of_put hput, hnode rfl, himport hid⟩
      · exact .inl ⟨file, hswapped.mem_of_ne hfile hpath, rfl, hid⟩
    · by_cases hpath : file.path = path
      · obtain ⟨put, hput, -, -, himport⟩ := hswapped.exists_put hstands hfile hpath
          (SourceFile.mem_nodes_of_import hid) hsource
        exact .inr ⟨put, hswapped.mem_of_put hput, himport hid⟩
      · exact .inr ⟨file, hswapped.mem_of_ne hfile hpath, hid⟩

/-- What is used and what uses it belongs to files, which may be the one that was put. -/
theorem Swapped.uses_between {edge : EdgeKey} (hedge : after.graph.hasEdge edge)
    (hkind : edge.kind = .references ∨ edge.kind = .inherits) :
    (∃ file ∈ after.files, edge.source = file.node ∨ edge.source ∈ file.symbols) ∧
      ∃ file ∈ after.files, edge.target ∈ file.symbols := by
  rcases (hswapped.hasEdge _).1 hedge with ⟨put, hput, hcalls⟩ | ⟨hold, -, hsource, htarget⟩
  · rcases hcalls with ⟨_, _, rfl⟩ | ⟨_, _, _, rfl⟩ | ⟨_, _, rfl⟩ <;> rcases hkind with h | h <;>
      cases h
  · obtain ⟨⟨user, huser, hfrom⟩, used, hused, hinto⟩ := hstands.wired.uses edge hold hkind
    constructor
    · by_cases hpath : user.path = path
      · have hmem : edge.source ∈ user.nodes := by
          rcases hfrom with hfrom | hfrom
          · exact hfrom ▸ SourceFile.node_mem_nodes
          · exact SourceFile.mem_nodes_of_symbol hfrom
        obtain ⟨put, hput, hnode, hsymbol, -⟩ :=
          hswapped.exists_put hstands huser hpath hmem hsource
        exact ⟨put, hswapped.mem_of_put hput, hfrom.imp hnode hsymbol⟩
      · exact ⟨user, hswapped.mem_of_ne huser hpath, hfrom⟩
    · by_cases hpath : used.path = path
      · obtain ⟨put, hput, -, hsymbol, -⟩ := hswapped.exists_put hstands hused hpath
          (SourceFile.mem_nodes_of_symbol hinto) htarget
        exact ⟨put, hswapped.mem_of_put hput, hsymbol hinto⟩
      · exact ⟨used, hswapped.mem_of_ne hused hpath, hinto⟩

theorem Swapped.wired : after.Wired where
  defines := hswapped.defines_iff hstands
  contains := hswapped.contains_iff hstands
  imports := fun _ _ hedge => hswapped.imports_or hstands hedge
  lists := by
    intro file hfile target htarget
    rcases (hswapped.mem_files file).1 hfile with hput | ⟨hfile, hpath⟩
    · exact (hswapped.hasEdge _).2 (.inl ⟨file, hput, .inr (.inr ⟨target, htarget, rfl⟩)⟩)
    · exact hswapped.hasEdge_of_mem hstands hfile hpath SourceFile.node_mem_nodes
        (SourceFile.mem_nodes_of_import htarget)
        (hstands.wired.lists file hfile target htarget)
  uses := fun _ hedge hkind => hswapped.uses_between hstands hedge hkind

/-! ### Bindings -/

omit hstands in
theorem Swapped.hasEdge_import {id : NodeId}
    (hstays : ¬ (id ∈ nodesOf (before.file? path) ∧ id ∉ nodesOf put?))
    (hnode : ∀ file, put? = some file → id ≠ file.node) (other : NodeId) :
    after.graph.hasEdge ⟨id, other, .imports⟩ ↔ before.graph.hasEdge ⟨id, other, .imports⟩ ∧
      ¬ (other ∈ nodesOf (before.file? path) ∧ other ∉ nodesOf put?) := by
  rw [hswapped.hasEdge]
  constructor
  · rintro (⟨put, hput, hcalls⟩ | ⟨hold, -, -, hother⟩)
    · rcases hcalls with ⟨_, _, hkey⟩ | ⟨_, _, _, hkey⟩ | ⟨_, _, hkey⟩ <;> cases hkey
      exact absurd rfl (hnode put hput)
    · exact ⟨hold, hother⟩
  · rintro ⟨hold, hother⟩
    exact .inr ⟨hold, fun h => (nomatch h.1), hstays, hother⟩

/-- What is live and stays is of the kind it was. -/
theorem Swapped.exists_target {target : NodeId} {node : Node}
    (hnode : before.graph.node? target = some node)
    (hkind : node.kind = .file ∨ node.kind.isSymbol = true)
    (hstays : ¬ (target ∈ nodesOf (before.file? path) ∧ target ∉ nodesOf put?)) :
    ∃ now, after.graph.node? target = some now ∧
      (now.kind = .file ∨ now.kind.isSymbol = true) := by
  by_cases hold : target ∈ nodesOf (before.file? path)
  · obtain ⟨file, hfile, hid⟩ := mem_nodesOf.1 hold
    obtain ⟨hmem, hpath⟩ := file?_mem hfile
    obtain ⟨put, hput, hown, hsymbol, -⟩ := hswapped.exists_put hstands hmem hpath hid hstays
    have hbrought := hswapped.brought put hput
    have hheld := hbrought.drawn.held hbrought.parallel
    rcases List.mem_cons.1 hid with rfl | hid
    · obtain ⟨now, errors, hnow, hfileKind, -⟩ := hheld.own
      exact ⟨now, hown rfl ▸ hnow, .inl hfileKind⟩
    · rcases List.mem_append.1 hid with hid | hid
      · obtain ⟨now, _, _, hnow, hsymbolKind, -⟩ :=
          hheld.exists_symbol hbrought.parallel (hsymbol hid)
        exact ⟨now, hnow, .inr hsymbolKind⟩
      · rw [hstands.kind_of_import hmem hid hnode] at hkind
        rcases hkind with h | h <;> cases h
  · have hnew : target ∉ nodesOf put? := fun h => hold (hswapped.mem_old hstands hnode h)
    obtain ⟨now, hnow, hsurvives⟩ := hswapped.replaced.kept target node hold hnew hnode
    exact ⟨now, hnow, hsurvives.kind_eq ▸ hkind⟩

/-- A binding that is kept while its target stays, or is dropped because its target went, has the
edges it calls for. -/
theorem Swapped.binds {language : Language} {id : NodeId} {binding kept : Binding}
    (hbinds : before.Binds language id binding)
    (hstays : ¬ (id ∈ nodesOf (before.file? path) ∧ id ∉ nodesOf put?))
    (hnode : ∀ file, put? = some file → id ≠ file.node)
    (hkept : (kept = binding ∧ ∀ target, binding = .resolved target →
        ¬ (target ∈ nodesOf (before.file? path) ∧ target ∉ nodesOf put?)) ∨
      ∃ target reason, (target ∈ nodesOf (before.file? path) ∧ target ∉ nodesOf put?) ∧
        binding = .resolved target ∧ kept = .unresolved reason) :
    after.Binds language id kept := by
  have hedge := hswapped.hasEdge_import hstays hnode
  rcases hkept with ⟨rfl, htarget⟩ | ⟨target, reason, hgone, rfl, rfl⟩
  · cases kept with
    | resolved target =>
      obtain ⟨⟨node, hlive, hkind⟩, hedges⟩ := hbinds
      have hstaysTarget := htarget target rfl
      refine ⟨hswapped.exists_target hstands hlive hkind hstaysTarget, fun other => ?_⟩
      rw [hedge, hedges, and_iff_left_iff_imp]
      rintro rfl
      exact hstaysTarget
    | unresolved reason =>
      intro other hother
      exact hbinds other ((hedge other).1 hother).1
    | external name =>
      obtain ⟨module, hmodule, hedges⟩ := hbinds
      refine ⟨module, hswapped.externals ▸ hmodule, fun other => ?_⟩
      rw [hedge, hedges, and_iff_left_iff_imp]
      rintro rfl hgone
      exact (hswapped.notMem_of_external hstands
        ((hstands.registered.shown _ _ _).1 hmodule) rfl).1 hgone.1
  · intro other hother
    obtain ⟨hold, hotherStays⟩ := (hedge other).1 hother
    obtain rfl := (hbinds.2 other).1 hold
    exact hotherStays hgone

theorem Swapped.bound_other {file : SourceFile} (hfile : file ∈ before.files)
    (hpath : file.path ≠ path) {id : NodeId} (hid : id ∈ file.imports) :
    ∃ node binding language, after.graph.node? id = some node ∧ node.binding? = some binding ∧
      (¬ pending file.path → language = file.language) ∧ after.Binds language id binding := by
  obtain ⟨node, binding, language, hnode, hbinding, hlanguage, hbinds⟩ :=
    hstands.bound file hfile id hid
  have hmem := SourceFile.mem_nodes_of_import hid
  have hnot := hswapped.notMem hstands hfile hpath hmem
  obtain ⟨now, hnow, hsurvives⟩ := hswapped.exists_now hstands hfile hpath hmem hnode
  obtain ⟨kept, rfl, hkept⟩ := hsurvives.exists_rebind hbinding
  have hkeptBinding : (node.rebind kept).binding? = some kept := by
    rw [Node.binding?_rebind, hbinding, Option.map_some]
  refine ⟨_, kept, language, hnow, hkeptBinding, hlanguage,
    hswapped.binds hstands hbinds (fun h => hnot.1 h.1) ?_ (hkept.imp_left fun heq => ⟨heq, ?_⟩)⟩
  · rintro put hput rfl
    exact hnot.2 (mem_nodesOf.2 ⟨put, hput, SourceFile.node_mem_nodes⟩)
  · rintro target rfl hgone
    exact hswapped.replaced.unbound id target _ hgone.1 hgone.2
      ((hbinds.2 target).2 rfl) hnow (hkeptBinding.trans (congrArg some heq))

theorem Swapped.bound_put {file : SourceFile} (hput : put? = some file) {id : NodeId}
    (hid : id ∈ file.imports) : ∃ node binding language, after.graph.node? id = some node ∧
      node.binding? = some binding ∧ after.Binds language id binding := by
  have hbrought := hswapped.brought file hput
  obtain ⟨now, kept, hnow, hkept, hkeeps⟩ := hbrought.keeps id hid
  have hnew : id ∈ nodesOf put? :=
    mem_nodesOf.2 ⟨file, hput, SourceFile.mem_nodes_of_import hid⟩
  have hnode : ∀ other, put? = some other → id ≠ other.node := by
    rintro other hother rfl
    obtain rfl := Option.some.inj (hput.symm.trans hother)
    exact (List.nodup_cons.1 hbrought.parallel.nodup).1 (List.mem_append_right _ hid)
  have hold : ∀ before', before.graph.node? id = some before' → ∀ binding,
      before'.binding? = some binding → ∃ language, before.Binds language id binding := by
    intro before' hbefore binding hbinding
    obtain ⟨old, hfile, hmem⟩ := mem_nodesOf.1 (hswapped.mem_old hstands hbefore hnew)
    obtain ⟨holdMem, -⟩ := file?_mem hfile
    have hheld := hstands.held old holdMem
    rcases List.mem_cons.1 hmem with rfl | hmem
    · obtain ⟨found, errors, hfound, -, -, hdetail⟩ := hheld.own
      rw [hbefore] at hfound
      rw [Option.some.inj hfound, Node.binding?, hdetail] at hbinding
      cases hbinding
    · rcases List.mem_append.1 hmem with hmem | hmem
      · obtain ⟨found, _, _, hfound, -, -, hdetail⟩ :=
          hheld.exists_symbol (hstands.parallel old holdMem) hmem
        rw [hbefore] at hfound
        rw [Option.some.inj hfound, Node.binding?, hdetail] at hbinding
        cases hbinding
      · obtain ⟨found, binding', language, hfound, hbinding', -, hbinds⟩ :=
          hstands.bound old holdMem id hmem
        rw [hbefore] at hfound
        rw [Option.some.inj hfound, hbinding'] at hbinding
        exact ⟨language, Option.some.inj hbinding ▸ hbinds⟩
  rcases hkeeps with ⟨before', hbefore, hbinding⟩ | ⟨reason, rfl, hnone | ⟨before', target, hbefore,
    hbinding, hgone⟩⟩
  · obtain ⟨language, hbinds⟩ := hold before' hbefore kept hbinding
    refine ⟨now, kept, language, hnow, hkept, hswapped.binds hstands hbinds (fun h => h.2 hnew)
      hnode (.inl ⟨rfl, ?_⟩)⟩
    rintro target rfl hgone
    exact hswapped.replaced.unbound id target now hgone.1 hgone.2 ((hbinds.2 target).2 rfl) hnow
      hkept
  · refine ⟨now, _, file.language, hnow, hkept, fun other hother => ?_⟩
    obtain ⟨hbefore, -⟩ := (hswapped.hasEdge_import (fun h => h.2 hnew) hnode other).1 hother
    exact Graph.not_contains_iff.2 hnone (hstands.graph.contains_of_hasEdge hbefore).1
  · obtain ⟨language, hbinds⟩ := hold before' hbefore _ hbinding
    exact ⟨now, _, language, hnow, hkept, hswapped.binds hstands hbinds (fun h => h.2 hnew) hnode
      (.inr ⟨target, reason, hgone, rfl, rfl⟩)⟩

/-! ### The index and the whole -/

theorem Swapped.indexed : after.Indexed fun other => stale other ∧ other ≠ path := by
  refine ⟨hswapped.indexSorted, fun place other hother => ?_, fun file hfile hstale place hplace => ?_⟩
  · rcases (hswapped.mem_indexedAt place other).1 hother with ⟨hold, hne⟩ | ⟨rfl, put, hput, hplace⟩
    · obtain ⟨file, hfile, rfl, hplace⟩ := hstands.indexed.only place other hold
      exact ⟨file, hswapped.mem_of_ne hfile hne, rfl, hplace⟩
    · exact ⟨put, hswapped.mem_of_put hput, (hswapped.brought put hput).path_eq,
        hplace⟩
  · rw [hswapped.mem_indexedAt]
    rcases (hswapped.mem_files file).1 hfile with hput | ⟨hfile, hpath⟩
    · exact .inr ⟨(hswapped.brought file hput).path_eq, file, hput, hplace⟩
    · exact .inl ⟨hstands.indexed.all file hfile (fun h => hstale ⟨h, hpath⟩) place hplace, hpath⟩

/-- **A file takes the place of another.** The new one shows what its facts say, and its imports wait
to be bound. -/
theorem Swapped.stands : after.Stands environment (fun other => stale other ∧ other ≠ path)
    (fun other => pending other ∨ other = path) where
  graph := hswapped.replaced.sound
  ordered := hswapped.ordered
  parallel := fun _ => hswapped.parallel hstands
  held := fun _ => hswapped.held hstands
  drawn := fun _ => hswapped.drawn hstands
  covered := fun _ _ => hswapped.covered hstands
  wired := hswapped.wired hstands
  registered := hswapped.registered hstands
  bound := by
    intro file hfile id hid
    rcases (hswapped.mem_files file).1 hfile with hput | ⟨hfile, hpath⟩
    · obtain ⟨node, binding, language, hnode, hbinding, hbinds⟩ :=
        hswapped.bound_put hstands hput hid
      exact ⟨node, binding, language, hnode, hbinding,
        fun h => absurd (.inr (hswapped.brought file hput).path_eq) h, hbinds⟩
    · obtain ⟨node, binding, language, hnode, hbinding, hlanguage, hbinds⟩ :=
        hswapped.bound_other hstands hfile hpath hid
      exact ⟨node, binding, language, hnode, hbinding,
        fun h => hlanguage fun hpending => h (.inl hpending), hbinds⟩
  indexed := hswapped.indexed hstands

end Swapped

end Workspace

end CodeGraph
