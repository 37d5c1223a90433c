import CodeGraph.Proofs.Workspace.Nodes
import Mathlib.Data.List.TakeWhile

/-!
# The files of a workspace, the index of importers and the nodes of files

Files stand in path order, so a path leads to at most one; the index is read through `indexedAt`. All
nodes of a file have its path, so a node belongs to one file only.
-/

namespace CodeGraph

namespace Workspace

/-! ### Files -/

theorem Ordered.nodup {files : List SourceFile} (hordered : Ordered files) :
    (files.map SourceFile.path).Nodup :=
  List.pairwise_map.2 (hordered.sorted.imp fun h => h.2)

theorem Ordered.file?_iff {workspace : Workspace} (hordered : Ordered workspace.files) {path : Path}
    {file : SourceFile} :
    workspace.file? path = some file ↔ file ∈ workspace.files ∧ file.path = path :=
  find?_key_iff hordered.nodup

theorem Ordered.file?_self {workspace : Workspace} (hordered : Ordered workspace.files)
    {file : SourceFile} (hfile : file ∈ workspace.files) :
    workspace.file? file.path = some file :=
  hordered.file?_iff.2 ⟨hfile, rfl⟩

theorem Ordered.eq_of_path {files : List SourceFile} (hordered : Ordered files)
    {left right : SourceFile} (hleft : left ∈ files) (hright : right ∈ files)
    (hpath : left.path = right.path) : left = right :=
  List.inj_on_of_nodup_map hordered.nodup hleft hright hpath

/-- Files in path order are determined by which they are. -/
theorem Ordered.eq_of_mem_iff {left right : List SourceFile} (hleft : Ordered left)
    (hright : Ordered right) (hmem : ∀ file, file ∈ left ↔ file ∈ right) : left = right := by
  refine List.Perm.eq_of_pairwise (fun first second hfirst hsecond hle hge => ?_)
    hleft.sorted hright.sorted
    ((List.perm_ext_iff_of_nodup hleft.nodup.of_map hright.nodup.of_map).2 hmem)
  exact absurd ((hleft.normal first hfirst).eq_of_le (hright.normal second hsecond) hle.1 hge.1)
    hle.2

theorem Ordered.filter {files : List SourceFile} (hordered : Ordered files)
    (keep : SourceFile → Bool) : Ordered (files.filter keep) :=
  ⟨hordered.sorted.filter _, fun file hfile => hordered.normal file (List.mem_filter.1 hfile).1⟩

theorem Ordered.map {files : List SourceFile} (hordered : Ordered files)
    {change : SourceFile → SourceFile} (hpath : ∀ file, (change file).path = file.path) :
    Ordered (files.map change) := by
  refine ⟨List.pairwise_map.2 ?_, fun file hfile => ?_⟩
  · simpa only [hpath] using hordered.sorted
  · obtain ⟨old, hold, rfl⟩ := List.mem_map.1 hfile
    rw [hpath]
    exact hordered.normal old hold

theorem file?_mem {workspace : Workspace} {path : Path} {file : SourceFile}
    (hfile : workspace.file? path = some file) : file ∈ workspace.files ∧ file.path = path :=
  ⟨List.mem_of_find?_eq_some hfile, by simpa using List.find?_some hfile⟩

theorem file?_eq_none_iff {workspace : Workspace} {path : Path} :
    workspace.file? path = none ↔ ∀ file ∈ workspace.files, file.path ≠ path := by
  simp [file?]

theorem contains_iff {workspace : Workspace} {path : Path} :
    workspace.contains path ↔ ∃ file, workspace.file? path = some file := by
  rw [contains, Option.isSome_iff_exists]

theorem mem_dropFile {workspace : Workspace} {path : Path} {file : SourceFile} :
    file ∈ (workspace.dropFile path).files ↔ file ∈ workspace.files ∧ file.path ≠ path := by
  simp [dropFile]

theorem Ordered.drop {workspace : Workspace} (hordered : Ordered workspace.files) (path : Path) :
    Ordered (workspace.dropFile path).files :=
  hordered.filter _

theorem mem_putFile {workspace : Workspace} {file other : SourceFile} :
    other ∈ (workspace.putFile file).files ↔
      other = file ∨ (other ∈ workspace.files ∧ other.path ≠ file.path) := by
  have hsplit : other ∈ (workspace.putFile file).files ↔
      other = file ∨ other ∈ (workspace.dropFile file.path).files := by
    rw [← List.takeWhile_append_dropWhile (p := fun found => found.path.le file.path)
      (l := (workspace.dropFile file.path).files)]
    simp only [putFile, List.mem_append, List.mem_cons]
    exact or_left_comm
  rw [hsplit, mem_dropFile]

theorem Ordered.put {workspace : Workspace} (hordered : Ordered workspace.files)
    {file : SourceFile} (hnormal : file.path.IsNormal) :
    Ordered (workspace.putFile file).files := by
  refine ⟨?_, fun other hother => ?_⟩
  · have hothers := hordered.drop file.path
    set others := (workspace.dropFile file.path).files with hothersDef
    have hapart : ∀ other ∈ others, other.path ≠ file.path := fun other h => (mem_dropFile.1 h).2
    have hbefore : ∀ other ∈ others.takeWhile (·.path.le file.path),
        other.path.le file.path ∧ other.path ≠ file.path := fun other h =>
      ⟨by simpa using List.mem_takeWhile_imp h, hapart other (List.takeWhile_subset _ h)⟩
    have hafter : ∀ other ∈ others.dropWhile (·.path.le file.path),
        file.path.le other.path ∧ file.path ≠ other.path := by
      intro other h
      refine ⟨?_, (hapart other (List.dropWhile_subset _ h)).symm⟩
      cases hrest : others.dropWhile (·.path.le file.path) with
      | nil =>
        rw [hrest] at h
        cases h
      | cons head rest =>
        have hsorted : (head :: rest).Pairwise fun left right =>
            left.path.le right.path ∧ left.path ≠ right.path := by
          rw [← hrest]
          exact hothers.sorted.sublist (List.dropWhile_sublist _)
        have hhead : ¬ head.path.le file.path := by
          have hnot := List.head?_dropWhile_not (fun found : SourceFile => found.path.le file.path)
            others
          rw [hrest] at hnot
          simpa using hnot
        have hle : file.path.le head.path := (Path.le_total head.path file.path).resolve_left hhead
        rw [hrest] at h
        rcases List.mem_cons.1 h with rfl | h
        · exact hle
        · exact Path.le_trans hle (List.rel_of_pairwise_cons hsorted h).1
    have hputFiles : (workspace.putFile file).files =
        others.takeWhile (·.path.le file.path) ++
          file :: others.dropWhile (·.path.le file.path) := rfl
    rw [hputFiles]
    refine List.pairwise_append.2 ⟨hothers.sorted.sublist (List.takeWhile_sublist _),
      List.pairwise_cons.2 ⟨hafter, hothers.sorted.sublist (List.dropWhile_sublist _)⟩, ?_⟩
    intro left hleft right hright
    rcases List.mem_cons.1 hright with rfl | hright
    · exact hbefore left hleft
    · have hsplit := hothers.sorted
      rw [← List.takeWhile_append_dropWhile (p := fun found => found.path.le file.path)
        (l := others)] at hsplit
      exact (List.pairwise_append.1 hsplit).2.2 left hleft right hright
  · rcases mem_putFile.1 hother with rfl | ⟨hother, -⟩
    · exact hnormal
    · exact hordered.normal other hother

/-! ### The index -/

theorem mem_indexPlace {importers : Table Path PathSet} {importer place path other : Path} :
    path ∈ ((indexPlace importer importers place).get? other).getD [] ↔
      path ∈ (importers.get? other).getD [] ∨ (path = importer ∧ other = place) := by
  rw [indexPlace, Table.get?_put]
  split
  · rename_i heq
    subst heq
    rw [Option.getD_some, PathSet.mem_insert]
    simp [or_comm]
  · rename_i hne
    simp [hne]

theorem mem_unindexPlace {importers : Table Path PathSet} {importer place path other : Path} :
    path ∈ ((unindexPlace importer importers place).get? other).getD [] ↔
      path ∈ (importers.get? other).getD [] ∧ ¬ (path = importer ∧ other = place) := by
  rw [unindexPlace]
  split
  · rename_i hnone
    refine ⟨fun h => ⟨h, ?_⟩, And.left⟩
    rintro ⟨-, rfl⟩
    rw [hnone] at h
    cases h
  · rename_i set hset
    have hrest : ∀ rest, PathSet.remove importer set = rest → (path ∈ rest ↔
        path ∈ set ∧ path ≠ importer) := fun rest h => h ▸ PathSet.mem_remove
    split
    · rename_i hempty
      rw [Table.get?_erase]
      split
      · rename_i heq
        subst heq
        have hnot := hrest [] hempty
        simp only [List.not_mem_nil, false_iff, not_and, not_not] at hnot
        simpa [hset] using hnot
      · rename_i hne
        simp [hne]
    · rename_i rest hne
      rw [Table.get?_put]
      split
      · rename_i heq
        subst heq
        rw [Option.getD_some, hrest _ rfl, hset, Option.getD_some]
        simp
      · rename_i hne
        simp [hne]

theorem mem_indexedAt_indexPlans {workspace : Workspace} {importer place path : Path}
    {plans : List ModulePlan} :
    path ∈ (workspace.indexPlans importer plans).indexedAt place ↔
      path ∈ workspace.indexedAt place ∨ (path = importer ∧ place ∈ placesOf plans) := by
  rw [indexedAt, indexPlans, indexedAt]
  simp only
  generalize workspace.importers = importers
  induction placesOf plans generalizing importers with
  | nil => simp
  | cons first rest ih =>
    rw [List.foldl_cons, ih, mem_indexPlace, List.mem_cons, and_or_left, or_assoc]

theorem mem_indexedAt_unindexPlans {workspace : Workspace} {importer place path : Path}
    {plans : List ModulePlan} :
    path ∈ (workspace.unindexPlans importer plans).indexedAt place ↔
      path ∈ workspace.indexedAt place ∧ ¬ (path = importer ∧ place ∈ placesOf plans) := by
  rw [indexedAt, unindexPlans, indexedAt]
  simp only
  generalize workspace.importers = importers
  induction placesOf plans generalizing importers with
  | nil => simp
  | cons first rest ih =>
    rw [List.foldl_cons, ih, mem_unindexPlace, List.mem_cons, and_assoc, ← not_or, and_or_left]

/-- Every entry of the index is in path order, and its paths are normalized. -/
def IndexSorted (importers : Table Path PathSet) : Prop :=
  ∀ place, PathSet.Sorted ((importers.get? place).getD []) ∧
    ∀ path ∈ (importers.get? place).getD [], path.IsNormal

theorem IndexSorted.indexPlace {importers : Table Path PathSet} (hsorted : IndexSorted importers)
    {importer : Path} (hnormal : importer.IsNormal) (place : Path) :
    IndexSorted (indexPlace importer importers place) := by
  intro other
  refine ⟨?_, fun path hpath => ?_⟩
  · rw [Workspace.indexPlace, Table.get?_put]
    split
    · exact (hsorted place).1.insert hnormal (hsorted place).2
    · exact (hsorted other).1
  · rcases mem_indexPlace.1 hpath with hold | ⟨rfl, -⟩
    · exact (hsorted other).2 path hold
    · exact hnormal

theorem IndexSorted.unindexPlace {importers : Table Path PathSet} (hsorted : IndexSorted importers)
    (importer place : Path) : IndexSorted (unindexPlace importer importers place) := by
  intro other
  refine ⟨?_, fun path hpath => (hsorted other).2 path (mem_unindexPlace.1 hpath).1⟩
  rw [Workspace.unindexPlace]
  split
  · exact (hsorted other).1
  · rename_i set hset
    have hset' : PathSet.Sorted set := by simpa [hset] using (hsorted place).1
    split
    · rw [Table.get?_erase]
      split
      · exact PathSet.sorted_nil
      · exact (hsorted other).1
    · rw [Table.get?_put]
      split
      · exact hset'.filter _
      · exact (hsorted other).1

theorem IndexSorted.indexPlans {workspace : Workspace} (hsorted : IndexSorted workspace.importers)
    {importer : Path} (hnormal : importer.IsNormal) (plans : List ModulePlan) :
    IndexSorted (workspace.indexPlans importer plans).importers :=
  List.foldlRecOn (motive := IndexSorted) _ _ hsorted fun _ hsorted _ _ =>
    hsorted.indexPlace hnormal _

theorem IndexSorted.unindexPlans {workspace : Workspace}
    (hsorted : IndexSorted workspace.importers) (importer : Path) (plans : List ModulePlan) :
    IndexSorted (workspace.unindexPlans importer plans).importers :=
  List.foldlRecOn (motive := IndexSorted) _ _ hsorted fun _ hsorted _ _ =>
    hsorted.unindexPlace importer _

end Workspace

/-! ### Nodes -/

namespace SourceFile

variable {graph : Graph} {file : SourceFile}

theorem node_mem_nodes : file.node ∈ file.nodes :=
  List.mem_cons_self

theorem mem_nodes_of_symbol {id : NodeId} (hid : id ∈ file.symbols) : id ∈ file.nodes :=
  List.mem_cons_of_mem _ (List.mem_append_left _ hid)

theorem mem_nodes_of_import {id : NodeId} (hid : id ∈ file.imports) : id ∈ file.nodes :=
  List.mem_cons_of_mem _ (List.mem_append_right _ hid)

theorem Held.congr {after : Graph} (hheld : file.Held graph)
    (hsame : ∀ id, id ∈ file.nodes → after.node? id = graph.node? id) : file.Held after := by
  refine ⟨?_, fun index id fact hid hfact => ?_, fun id hid => ?_⟩
  · rw [hsame _ node_mem_nodes]
    exact hheld.own
  · rw [hsame id (mem_nodes_of_symbol (List.mem_of_getElem? hid))]
    exact hheld.symbol index id fact hid hfact
  · rw [hsame id (mem_nodes_of_import hid)]
    exact hheld.imported id hid

theorem Drawn.congr {after : Graph} (hdrawn : file.Drawn graph)
    (hsame : ∀ id, id ∈ file.nodes → after.node? id = graph.node? id) : file.Drawn after := by
  refine ⟨?_, fun index id fact hid hfact => ?_, fun index id fact hid hfact => ?_⟩
  · rw [hsame _ node_mem_nodes]
    exact hdrawn.own
  · rw [hsame id (mem_nodes_of_symbol (List.mem_of_getElem? hid))]
    exact hdrawn.symbol index id fact hid hfact
  · rw [hsame id (mem_nodes_of_import (List.mem_of_getElem? hid))]
    exact hdrawn.imported index id fact hid hfact

theorem Held.exists_symbol (hheld : file.Held graph) (hparallel : file.Parallel) {id : NodeId}
    (hid : id ∈ file.symbols) : ∃ node parent exported, graph.node? id = some node ∧
      node.kind.isSymbol = true ∧ node.path = file.path ∧ node.detail = .symbol parent exported := by
  obtain ⟨index, hindex⟩ := List.mem_iff_getElem?.1 hid
  have hlt : index < file.facts.symbols.length :=
    hparallel.symbols ▸ (List.getElem?_eq_some_iff.1 hindex).1
  have hfact := List.getElem?_eq_getElem hlt
  obtain ⟨node, parent, exported, hnode, hkind, hrest⟩ := hheld.symbol index id _ hindex hfact
  exact ⟨node, parent, exported, hnode, hkind ▸ (hparallel.formed.symbols index _ hfact).kind,
    hrest⟩

/-- Every node of a file is there, has the path of the file and is of the project. -/
theorem Held.exists_node (hheld : file.Held graph) (hparallel : file.Parallel) {id : NodeId}
    (hid : id ∈ file.nodes) :
    ∃ node, graph.node? id = some node ∧ node.path = file.path ∧ node.kind ≠ .external := by
  rcases List.mem_cons.1 hid with rfl | hid
  · obtain ⟨node, errors, hnode, hkind, hpath, -⟩ := hheld.own
    exact ⟨node, hnode, hpath, by rw [hkind]; decide⟩
  · rcases List.mem_append.1 hid with hid | hid
    · obtain ⟨node, parent, exported, hnode, hkind, hpath, -⟩ := hheld.exists_symbol hparallel hid
      refine ⟨node, hnode, hpath, fun h => ?_⟩
      rw [h] at hkind
      cases hkind
    · obtain ⟨node, detail, hnode, hkind, hpath, -⟩ := hheld.imported id hid
      exact ⟨node, hnode, hpath, by rw [hkind]; decide⟩

end SourceFile

namespace Workspace

theorem mem_of_nests {facts : List SymbolFact} {ids : List NodeId} {parent child : NodeId}
    (hnests : Nests facts ids parent child) : parent ∈ ids ∧ child ∈ ids := by
  obtain ⟨_, _, _, _, _, hin, hat⟩ := hnests
  exact ⟨List.mem_of_getElem? hin, List.mem_of_getElem? hat⟩

/-- A binding has the edges it calls for as long as those edges, the kinds of nodes and the outside
modules stay. -/
theorem Binds.congr {before after : Workspace} {language : Language} {id : NodeId}
    {binding : Binding} (hbinds : before.Binds language id binding)
    (hedge : ∀ other, after.graph.hasEdge ⟨id, other, .imports⟩ ↔
      before.graph.hasEdge ⟨id, other, .imports⟩)
    (hkind : ∀ target node, before.graph.node? target = some node →
      ∃ now, after.graph.node? target = some now ∧ now.kind = node.kind)
    (hexternal : ∀ name module, before.externals.get? (language, name) = some module →
      after.externals.get? (language, name) = some module) :
    after.Binds language id binding := by
  cases binding with
  | resolved target =>
    obtain ⟨⟨node, hnode, hnodeKind⟩, hedges⟩ := hbinds
    obtain ⟨now, hnow, heq⟩ := hkind target node hnode
    exact ⟨⟨now, hnow, heq ▸ hnodeKind⟩, fun other => (hedge other).trans (hedges other)⟩
  | unresolved reason => exact fun other hother => hbinds other ((hedge other).1 hother)
  | external name =>
    obtain ⟨module, hmodule, hedges⟩ := hbinds
    exact ⟨module, hexternal name module hmodule, fun other => (hedge other).trans (hedges other)⟩

/-- When no plan is stale, the index is determined by the files. -/
theorem indexedAt_eq_of_files {left right : Workspace} (hordered : Ordered left.files)
    (hleft : left.Indexed fun _ => False) (hright : right.Indexed fun _ => False)
    (hfiles : right.files = left.files) (place : Path) :
    right.indexedAt place = left.indexedAt place := by
  have hmem : ∀ {workspace : Workspace} (_ : workspace.Indexed fun _ => False) (path : Path),
      path ∈ workspace.indexedAt place ↔
        ∃ file ∈ workspace.files, file.path = path ∧ place ∈ placesOf file.plans := by
    refine fun hindexed path => ⟨hindexed.only place path, ?_⟩
    rintro ⟨file, hfile, rfl, hplace⟩
    exact hindexed.all file hfile id place hplace
  refine (hright.sorted place).eq_of_mem_iff (hleft.sorted place) (fun path hpath => ?_) fun path => ?_
  · obtain ⟨file, hfile, rfl, -⟩ := hright.only place path hpath
    exact hordered.normal file (hfiles ▸ hfile)
  · rw [hmem hright, hmem hleft, hfiles]

section Stands

variable {environment : Environment} {stale pending : Path → Prop} {workspace : Workspace}
  (hstands : workspace.Stands environment stale pending)

include hstands

theorem Stands.exists_node {file : SourceFile} (hfile : file ∈ workspace.files) {id : NodeId}
    (hid : id ∈ file.nodes) : ∃ node, workspace.graph.node? id = some node ∧
      node.path = file.path ∧ node.kind ≠ .external :=
  (hstands.held file hfile).exists_node (hstands.parallel file hfile) hid

theorem Stands.eq_of_mem {left right : SourceFile} (hleft : left ∈ workspace.files)
    (hright : right ∈ workspace.files) {id : NodeId} (hinLeft : id ∈ left.nodes)
    (hinRight : id ∈ right.nodes) : left = right := by
  obtain ⟨node, hnode, hpath, -⟩ := hstands.exists_node hleft hinLeft
  obtain ⟨other, hother, hpath', -⟩ := hstands.exists_node hright hinRight
  rw [hnode] at hother
  obtain rfl := Option.some.inj hother
  exact hstands.ordered.eq_of_path hleft hright (hpath.symm.trans hpath')

theorem Stands.kind_of_node {file : SourceFile} (hfile : file ∈ workspace.files) {node : Node}
    (hnode : workspace.graph.node? file.node = some node) : node.kind = .file := by
  obtain ⟨found, errors, hfound, hkind, -⟩ := (hstands.held file hfile).own
  rw [hnode] at hfound
  exact Option.some.inj hfound ▸ hkind

theorem Stands.kind_of_symbol {file : SourceFile} (hfile : file ∈ workspace.files) {id : NodeId}
    (hid : id ∈ file.symbols) {node : Node} (hnode : workspace.graph.node? id = some node) :
    node.kind.isSymbol = true := by
  obtain ⟨found, parent, exported, hfound, hkind, -⟩ :=
    (hstands.held file hfile).exists_symbol (hstands.parallel file hfile) hid
  rw [hnode] at hfound
  exact Option.some.inj hfound ▸ hkind

theorem Stands.kind_of_import {file : SourceFile} (hfile : file ∈ workspace.files) {id : NodeId}
    (hid : id ∈ file.imports) {node : Node} (hnode : workspace.graph.node? id = some node) :
    node.kind = .importDecl := by
  obtain ⟨found, detail, hfound, hkind, -⟩ := (hstands.held file hfile).imported id hid
  rw [hnode] at hfound
  exact Option.some.inj hfound ▸ hkind

theorem Stands.indexSorted : IndexSorted workspace.importers := by
  intro place
  refine ⟨hstands.indexed.sorted place, fun path hpath => ?_⟩
  obtain ⟨file, hfile, rfl, -⟩ := hstands.indexed.only place path hpath
  exact hstands.ordered.normal file hfile

/-- A file that is there is ready to be brought up to date, and a new one finds its path free. -/
theorem Stands.prepared {path : Path} (hnormal : path.IsNormal) :
    Pass.Prepared workspace.graph path (workspace.file? path) := by
  cases hfile : workspace.file? path with
  | none =>
    refine .absent ?_
    cases hget : workspace.graph.files.get? path.tidy with
    | none => rfl
    | some id =>
      obtain ⟨node, hnode, hkind, htidy⟩ := (hstands.graph.files _ _).1 hget
      obtain ⟨file, hmem, hid⟩ := hstands.covered id node hnode (by rw [hkind]; decide)
      obtain ⟨found, hfound, hpath, -⟩ := hstands.exists_node hmem hid
      rw [hnode] at hfound
      obtain rfl := Option.some.inj hfound
      rw [hpath, (hstands.ordered.normal file hmem).tidy_eq, hnormal.tidy_eq] at htidy
      exact absurd htidy (file?_eq_none_iff.1 hfile file hmem)
  | some file =>
    obtain ⟨hmem, hpath⟩ := file?_mem hfile
    refine .present (hstands.held file hmem) (hstands.parallel file hmem) hpath ?_ ?_
      (hstands.wired.lists file hmem) ?_
    · exact fun id hid => (hstands.wired.defines _ _).2 ⟨file, hmem, rfl, hid⟩
    · intro parent hparent child hedge
      obtain ⟨other, hother, hnests⟩ := (hstands.wired.contains _ _).1 hedge
      have hsame : other = file := hstands.eq_of_mem hother hmem
        (SourceFile.mem_nodes_of_symbol (mem_of_nests hnests).1)
        (SourceFile.mem_nodes_of_symbol hparent)
      exact hsame ▸ hnests
    · intro id hid child hedge
      obtain ⟨other, hother, hnests⟩ := (hstands.wired.contains _ _).1 hedge
      obtain ⟨node, hnode⟩ := Graph.contains_iff.1 (hstands.graph.contains_of_hasEdge hedge).1
      have hsymbol := hstands.kind_of_symbol hother (mem_of_nests hnests).1 hnode
      rw [hstands.kind_of_import hmem hid hnode] at hsymbol
      cases hsymbol

end Stands

end Workspace

end CodeGraph
