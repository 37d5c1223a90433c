import CodeGraph.Proofs.Workspace.Files
import CodeGraph.Workspace.Consistency
import Mathlib.Data.List.Perm.Subperm

/-!
# The check before a commit

The check looks at a part of the invariant only, so it passes whenever the invariant holds.
-/

namespace CodeGraph

namespace Workspace

variable {environment : Environment} {workspace : Workspace}
  (hsound : workspace.Sound environment)

include hsound

/-! ### The graph -/

theorem Sound.exists_file_of_kind {id : NodeId} {node : Node}
    (hnode : workspace.graph.node? id = some node) (hkind : node.kind = .file) :
    ∃ file ∈ workspace.files, id = file.node ∧ node.path = file.path := by
  obtain ⟨file, hfile, hid⟩ := hsound.covered id node hnode fun h => by
    rw [h] at hkind
    cases hkind
  obtain ⟨found, hfound, hpath, -⟩ := hsound.exists_node hfile hid
  rw [hnode] at hfound
  obtain rfl := Option.some.inj hfound
  rcases List.mem_cons.1 hid with hid | hid
  · exact ⟨file, hfile, hid, hpath⟩
  · rcases List.mem_append.1 hid with hid | hid
    · have hsymbol := hsound.kind_of_symbol hfile hid hnode
      rw [hkind] at hsymbol
      cases hsymbol
    · have himport := hsound.kind_of_import hfile hid hnode
      rw [hkind] at himport
      cases himport

theorem Sound.contains_of_mem {file : SourceFile} (hfile : file ∈ workspace.files) {id : NodeId}
    (hid : id ∈ file.nodes) : workspace.graph.contains id := by
  obtain ⟨node, hnode, -⟩ := hsound.exists_node hfile hid
  exact Graph.contains_of_node? hnode

theorem Sound.checkEntry_eq_ok {entry : Path × NodeId}
    (hentry : entry ∈ workspace.graph.files.entries) :
    Graph.checkFile workspace.graph.node? entry = .ok () := by
  obtain ⟨node, hnode, hkind, htidy⟩ := (hsound.graph.files entry.1 entry.2).1
    (hsound.graph.keyed.mem_entries_iff.1 hentry)
  obtain ⟨file, hfile, -, hpath⟩ := hsound.exists_file_of_kind hnode hkind
  have hplain : node.path.tidy = node.path :=
    hpath ▸ (hsound.ordered.normal file hfile).tidy_eq
  rw [Graph.checkFile, hnode]
  simp only
  rw [if_pos]
  rw [← htidy, hplain, Path.same]
  exact decide_eq_true rfl

/-- Every node names live nodes only. -/
theorem Sound.checkNode_eq_ok {id : NodeId} {node : Node}
    (hnode : workspace.graph.node? id = some node) :
    Graph.checkNode workspace.graph.contains node = .ok () := by
  by_cases hkind : node.kind = .external
  · obtain ⟨language, name, hget⟩ := hsound.registered.covered id node hnode hkind
    have hshown := (hsound.registered.shown language name id).1 hget
    rw [hnode] at hshown
    obtain rfl := Option.some.inj hshown
    rfl
  · obtain ⟨file, hfile, hid⟩ := hsound.covered id node hnode hkind
    obtain ⟨hdrawn, -⟩ := hsound.drawn file hfile not_false
    have hparallel := hsound.parallel file hfile
    rcases List.mem_cons.1 hid with rfl | hid
    · have hown := hdrawn.own
      rw [hnode] at hown
      obtain rfl := Option.some.inj hown
      have hnone : (file.symbols ++ file.imports).find?
          (fun id => !workspace.graph.contains id) = none := by
        refine List.find?_eq_none.2 fun member hmember => ?_
        simp [hsound.contains_of_mem hfile (List.mem_cons_of_mem _ hmember)]
      simp only [Graph.checkNode, Node.ofFile, hnone]
    · rcases List.mem_append.1 hid with hid | hid
      · obtain ⟨index, hindex⟩ := List.mem_iff_getElem?.1 hid
        obtain ⟨hlt, -⟩ := List.getElem?_eq_some_iff.1 hindex
        have hfact := List.getElem?_eq_getElem (hparallel.symbols ▸ hlt)
        have hshown := hdrawn.symbol index id _ hindex hfact
        rw [hnode] at hshown
        obtain rfl := Option.some.inj hshown
        simp only [Graph.checkNode, Node.ofSymbol]
        split
        · rename_i hdetail
          cases hdetail
        · rename_i parent _ hdetail
          obtain ⟨hparent, -⟩ := NodeDetail.symbol.inj hdetail
          obtain ⟨outer, -, houter⟩ := Option.bind_eq_some_iff.1 hparent
          rw [if_pos (hsound.contains_of_mem hfile
            (SourceFile.mem_nodes_of_symbol (List.mem_of_getElem? houter)))]
        · rfl
        · rename_i hdetail
          cases hdetail
        · rfl
      · obtain ⟨found, binding, language, hfound, hbinding, -, hbinds⟩ :=
          hsound.bound file hfile id hid
        rw [hnode] at hfound
        obtain rfl := Option.some.inj hfound
        obtain ⟨found, detail, hfound, -, -, hdetail⟩ := (hsound.held file hfile).imported id hid
        rw [hnode] at hfound
        obtain rfl := Option.some.inj hfound
        rw [Node.binding?, hdetail] at hbinding
        obtain rfl := Option.some.inj hbinding
        rw [Graph.checkNode, hdetail]
        simp only
        split
        · rename_i target htarget
          rw [htarget] at hbinds
          obtain ⟨⟨node', hnode', -⟩, -⟩ := hbinds
          rw [if_pos (Graph.contains_of_node? hnode')]
        · rfl
        · rfl

theorem Sound.checkGraph_eq_ok : workspace.graph.check = .ok () := by
  have hedges : workspace.graph.edges.forM workspace.graph.checkEdge = .ok () := by
    refine forM_eq_ok fun edge hedge => ?_
    obtain ⟨hsource, htarget⟩ := hsound.graph.closed edge hedge
    rw [Graph.checkEdge, if_pos (by rw [hsource, htarget]; rfl)]
  have hfiles : workspace.graph.files.entries.forM (Graph.checkFile workspace.graph.node?) = .ok () :=
    forM_eq_ok fun entry hentry => hsound.checkEntry_eq_ok hentry
  have hnodes :
      workspace.graph.nodesBySlot.forM (Graph.checkNode workspace.graph.contains) = .ok () := by
    refine forM_eq_ok fun node hnode => ?_
    obtain ⟨id, -, hid⟩ := List.mem_filterMap.1 hnode
    exact hsound.checkNode_eq_ok hid
  rw [Graph.check, hedges, hfiles]
  exact hnodes

/-! ### The files -/

theorem Sound.fileNode?_eq {file : SourceFile} (hfile : file ∈ workspace.files) :
    workspace.graph.fileNode? file.path = some file.node := by
  obtain ⟨node, errors, hnode, hkind, hpath, -⟩ := (hsound.held file hfile).own
  exact hsound.graph.fileNode?_iff.2 ⟨node, hnode, hkind, by rw [hpath]⟩

theorem Sound.ownsNode_eq {file : SourceFile} (hfile : file ∈ workspace.files) {id : NodeId}
    (hid : id ∈ file.nodes) : workspace.ownsNode file id = true := by
  obtain ⟨node, hnode, hpath, -⟩ := hsound.exists_node hfile hid
  rw [ownsNode, hnode, Option.any_some]
  exact decide_eq_true hpath

/-- A binding calls for at most one edge, and no key stands twice. -/
theorem Sound.targetCount_le {file : SourceFile} (hfile : file ∈ workspace.files) {id : NodeId}
    (hid : id ∈ file.imports) : workspace.targetCount id ≤ 1 := by
  obtain ⟨-, binding, language, -, -, -, hbinds⟩ := hsound.bound file hfile id hid
  have hone : ∃ target, ∀ other, workspace.graph.hasEdge ⟨id, other, .imports⟩ → other = target := by
    cases binding with
    | resolved target => exact ⟨target, fun other => (hbinds.2 other).1⟩
    | unresolved reason => exact ⟨id, fun other hother => absurd hother (hbinds other)⟩
    | external name =>
      obtain ⟨module, -, hedges⟩ := hbinds
      exact ⟨module, fun other => (hedges other).1⟩
  obtain ⟨target, htarget⟩ := hone
  have hkeys : ((workspace.graph.edgesFrom id).filter fun edge => edge.kind = .imports).map
      Edge.key ⊆ [⟨id, target, .imports⟩] := by
    intro key hkey
    obtain ⟨hedge, hsource, hkind⟩ := (Graph.exists_mem_edgesFrom
      (fun key => key.kind = .imports) fun _ => rfl).1 hkey
    obtain ⟨source, other, kind⟩ := key
    obtain rfl : source = id := hsource
    obtain rfl : kind = .imports := of_decide_eq_true hkind
    rw [htarget other hedge]
    exact List.mem_singleton_self _
  have hnodup : (((workspace.graph.edgesFrom id).filter fun edge => edge.kind = .imports).map
      Edge.key).Nodup :=
    ((List.filter_sublist.trans List.filter_sublist).map Edge.key).nodup hsound.graph.keys
  simpa [targetCount] using (List.subperm_of_subset hnodup hkeys).length_le

theorem Sound.checkFile_eq_ok {file : SourceFile} (hfile : file ∈ workspace.files) :
    workspace.checkFile file = .ok () := by
  have hlisted : (file.symbols ++ file.imports).find?
      (fun id => !workspace.ownsNode file id) = none := by
    refine List.find?_eq_none.2 fun id hid => ?_
    rw [hsound.ownsNode_eq hfile (List.mem_cons_of_mem _ hid)]
    exact Bool.false_ne_true
  have htargets : file.imports.find? (fun id => 1 < workspace.targetCount id) = none := by
    refine List.find?_eq_none.2 fun id hid => ?_
    simpa using hsound.targetCount_le hfile hid
  rw [checkFile, hsound.fileNode?_eq hfile]
  simp only [hlisted, htargets, ne_eq, not_true_eq_false, if_false]
  rfl

theorem Sound.nodes_nodup : (workspace.files.map SourceFile.node).Nodup := by
  refine List.Nodup.map_on (fun left hleft right hright hsame => ?_)
    (List.Nodup.of_map SourceFile.path hsound.ordered.nodup)
  exact hsound.eq_of_mem hleft hright SourceFile.node_mem_nodes
    (hsame ▸ SourceFile.node_mem_nodes)

/-- There are as many file nodes as files. -/
theorem Sound.length_nodesOfKind :
    (workspace.graph.nodesOfKind .file).length = workspace.files.length := by
  have hnodes : ((workspace.graph.nodesOfKind .file).map Node.id).Nodup :=
    (List.filter_sublist.map Node.id).nodup hsound.graph.ids
  have hperm : ((workspace.graph.nodesOfKind .file).map Node.id).Perm
      (workspace.files.map SourceFile.node) := by
    refine (List.perm_ext_iff_of_nodup hnodes hsound.nodes_nodup).2 fun id => ?_
    simp only [List.mem_map, Graph.nodesOfKind, List.mem_filter, decide_eq_true_eq]
    constructor
    · rintro ⟨node, ⟨hmem, hkind⟩, rfl⟩
      obtain ⟨file, hfile, hid, -⟩ :=
        hsound.exists_file_of_kind (hsound.graph.node?_iff.2 ⟨hmem, rfl⟩) hkind
      exact ⟨file, hfile, hid.symm⟩
    · rintro ⟨file, hfile, rfl⟩
      obtain ⟨node, errors, hnode, hkind, -⟩ := (hsound.held file hfile).own
      obtain ⟨hmem, hid⟩ := hsound.graph.node?_iff.1 hnode
      exact ⟨node, ⟨hmem, hkind⟩, hid⟩
  simpa using hperm.length_eq

/-- **The check passes on every sound workspace.** -/
theorem Sound.check_eq_ok : workspace.check = .ok () := by
  have hfiles : workspace.files.forM workspace.checkFile = .ok () :=
    forM_eq_ok fun file hfile => hsound.checkFile_eq_ok hfile
  rw [check, hsound.checkGraph_eq_ok, hfiles]
  simp only [Except.mapError, hsound.length_nodesOfKind, ne_eq, not_true_eq_false, if_false]
  rfl

end Workspace

end CodeGraph
