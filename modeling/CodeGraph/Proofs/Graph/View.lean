import CodeGraph.Proofs.Path
import CodeGraph.Proofs.Table
import CodeGraph.Workspace.Bind

/-!
# The graph as its nodes and edges

A graph is read through `node?` and `hasEdge`. For a sound graph every operation is described by what
it does to these two views, and keeps the graph sound: ids and edge keys stand once, edges join live
nodes, and the file index lists exactly the file nodes.
-/

namespace CodeGraph.Graph

structure Sound (graph : Graph) : Prop where
  ids : (graph.nodes.map Node.id).Nodup
  below : ∀ node ∈ graph.nodes, node.id < graph.nextId
  keys : (graph.edges.map Edge.key).Nodup
  closed : ∀ edge ∈ graph.edges, graph.contains edge.source ∧ graph.contains edge.target
  keyed : graph.files.Keyed
  files : ∀ path id, graph.files.get? path = some id ↔
    ∃ node, graph.node? id = some node ∧ node.kind = .file ∧ node.path.tidy = path

theorem sound_empty : empty.Sound where
  ids := List.nodup_nil
  below := by
    intro node hnode
    cases hnode
  keys := List.nodup_nil
  closed := by
    intro edge hedge
    cases hedge
  keyed := Table.keyed_empty
  files := by
    intro path id
    refine ⟨fun hget => ?_, ?_⟩
    · cases hget
    · rintro ⟨node, hnode, -⟩
      cases hnode

variable {graph : Graph}

/-! ### Reading -/

theorem id_of_node? {id : NodeId} {node : Node} (hnode : graph.node? id = some node) :
    node.id = id := by
  simpa using List.find?_some hnode

theorem mem_nodes_of_node? {id : NodeId} {node : Node} (hnode : graph.node? id = some node) :
    node ∈ graph.nodes :=
  List.mem_of_find?_eq_some hnode

theorem Sound.node?_iff (hsound : graph.Sound) {id : NodeId} {node : Node} :
    graph.node? id = some node ↔ node ∈ graph.nodes ∧ node.id = id :=
  find?_key_iff hsound.ids

theorem Sound.lt_nextId (hsound : graph.Sound) {id : NodeId} {node : Node}
    (hnode : graph.node? id = some node) : id < graph.nextId :=
  id_of_node? hnode ▸ hsound.below node (mem_nodes_of_node? hnode)

theorem Sound.node?_eq_none_of_le (hsound : graph.Sound) {id : NodeId}
    (hle : graph.nextId ≤ id) : graph.node? id = none := by
  cases hnode : graph.node? id with
  | none => rfl
  | some node => exact absurd (hsound.lt_nextId hnode) (Nat.not_lt_of_le hle)

theorem contains_iff {id : NodeId} :
    graph.contains id ↔ ∃ node, graph.node? id = some node := by
  rw [contains, Option.isSome_iff_exists]

theorem contains_of_node? {id : NodeId} {node : Node} (hnode : graph.node? id = some node) :
    graph.contains id :=
  contains_iff.2 ⟨node, hnode⟩

theorem not_contains_iff {id : NodeId} : ¬ graph.contains id ↔ graph.node? id = none := by
  rw [contains, Bool.not_eq_true, Option.isSome_eq_false_iff, Option.isNone_iff_eq_none]

theorem hasEdge_iff {key : EdgeKey} :
    graph.hasEdge key ↔ ∃ edge ∈ graph.edges, edge.key = key := by
  rw [hasEdge, edge?, List.find?_isSome]
  simp

theorem mem_targets {source target : NodeId} {kind : EdgeKind} :
    target ∈ ((graph.edgesFrom source).filter fun edge => edge.kind = kind).map Edge.target ↔
      graph.hasEdge ⟨source, target, kind⟩ := by
  simp only [edgesFrom, List.mem_map, List.mem_filter, hasEdge_iff, decide_eq_true_eq]
  constructor
  · rintro ⟨edge, ⟨⟨hedge, hsource⟩, hkind⟩, htarget⟩
    exact ⟨edge, hedge, by rw [Edge.key, hsource, htarget, hkind]⟩
  · rintro ⟨edge, hedge, hkey⟩
    obtain ⟨hsource, htarget, hkind⟩ := EdgeKey.mk.inj hkey
    exact ⟨edge, ⟨⟨hedge, hsource⟩, hkind⟩, htarget⟩

theorem mem_origins {source target : NodeId} {kind : EdgeKind} :
    source ∈ ((graph.edgesTo target).filter fun edge => edge.kind = kind).map Edge.source ↔
      graph.hasEdge ⟨source, target, kind⟩ := by
  simp only [edgesTo, List.mem_map, List.mem_filter, hasEdge_iff, decide_eq_true_eq]
  constructor
  · rintro ⟨edge, ⟨⟨hedge, htarget⟩, hkind⟩, hsource⟩
    exact ⟨edge, hedge, by rw [Edge.key, hsource, htarget, hkind]⟩
  · rintro ⟨edge, hedge, hkey⟩
    obtain ⟨hsource, htarget, hkind⟩ := EdgeKey.mk.inj hkey
    exact ⟨edge, ⟨⟨hedge, htarget⟩, hkind⟩, hsource⟩

theorem Sound.contains_of_hasEdge (hsound : graph.Sound) {key : EdgeKey}
    (hkey : graph.hasEdge key) : graph.contains key.source ∧ graph.contains key.target := by
  obtain ⟨edge, hedge, rfl⟩ := hasEdge_iff.1 hkey
  exact hsound.closed edge hedge

theorem Sound.fileNode?_iff (hsound : graph.Sound) {path : Path} {id : NodeId} :
    graph.fileNode? path = some id ↔
      ∃ node, graph.node? id = some node ∧ node.kind = .file ∧ node.path.tidy = path.tidy :=
  hsound.files path.tidy id

/-- The index finds the same files wherever all nodes have the kinds and the paths that they had. -/
theorem Sound.fileNode?_congr {after : Graph} (hsound : graph.Sound) (hafter : after.Sound)
    (hsame : ∀ id, (after.node? id).map (fun node => (node.kind, node.path)) =
      (graph.node? id).map fun node => (node.kind, node.path)) (path : Path) :
    after.fileNode? path = graph.fileNode? path := by
  have hfound : ∀ (first : Graph) (id : NodeId),
      (∃ node, first.node? id = some node ∧ node.kind = .file ∧ node.path.tidy = path.tidy) ↔
        ∃ shown, (first.node? id).map (fun node => (node.kind, node.path)) = some shown ∧
          shown.1 = .file ∧ shown.2.tidy = path.tidy := by
    intro first id
    cases first.node? id <;> simp
  ext id
  rw [hafter.fileNode?_iff, hsound.fileNode?_iff, hfound, hfound, hsame]

theorem exists_mem_edgesFrom {id : NodeId} {key : EdgeKey} {wanted : Edge → Bool}
    (accepts : EdgeKey → Bool) (hwanted : ∀ edge, wanted edge = accepts edge.key) :
    key ∈ ((graph.edgesFrom id).filter wanted).map Edge.key ↔
      graph.hasEdge key ∧ key.source = id ∧ accepts key = true := by
  simp only [edgesFrom, List.mem_map, List.mem_filter, hasEdge_iff, decide_eq_true_eq]
  constructor
  · rintro ⟨edge, ⟨⟨hedge, hsource⟩, hedgeWanted⟩, rfl⟩
    exact ⟨⟨edge, hedge, rfl⟩, hsource, hwanted edge ▸ hedgeWanted⟩
  · rintro ⟨⟨edge, hedge, rfl⟩, hsource, haccepts⟩
    exact ⟨edge, ⟨⟨hedge, hsource⟩, hwanted edge ▸ haccepts⟩, rfl⟩

theorem exists_mem_edgesTo {id : NodeId} {key : EdgeKey} {wanted : Edge → Bool}
    (accepts : EdgeKey → Bool) (hwanted : ∀ edge, wanted edge = accepts edge.key) :
    key ∈ ((graph.edgesTo id).filter wanted).map Edge.key ↔
      graph.hasEdge key ∧ key.target = id ∧ accepts key = true := by
  simp only [edgesTo, List.mem_map, List.mem_filter, hasEdge_iff, decide_eq_true_eq]
  constructor
  · rintro ⟨edge, ⟨⟨hedge, htarget⟩, hedgeWanted⟩, rfl⟩
    exact ⟨⟨edge, hedge, rfl⟩, htarget, hwanted edge ▸ hedgeWanted⟩
  · rintro ⟨⟨edge, hedge, rfl⟩, htarget, haccepts⟩
    exact ⟨edge, ⟨⟨hedge, htarget⟩, hwanted edge ▸ haccepts⟩, rfl⟩

/-! ### The journal -/

@[simp] theorem node?_record (graph : Graph) (entry : Delta) (id : NodeId) :
    (graph.record entry).node? id = graph.node? id := rfl

@[simp] theorem hasEdge_record (graph : Graph) (entry : Delta) (key : EdgeKey) :
    (graph.record entry).hasEdge key = graph.hasEdge key := rfl

/-- The graphs differ at most in what no view shows. -/
structure SameView (before after : Graph) : Prop where
  nodes : after.nodes = before.nodes
  edges : after.edges = before.edges
  files : after.files = before.files
  nextId : after.nextId = before.nextId

theorem SameView.node? {before after : Graph} (hsame : before.SameView after) (id : NodeId) :
    after.node? id = before.node? id := by
  rw [Graph.node?, hsame.nodes, Graph.node?]

theorem SameView.hasEdge {before after : Graph} (hsame : before.SameView after) (key : EdgeKey) :
    after.hasEdge key = before.hasEdge key := by
  rw [Graph.hasEdge, edge?, hsame.edges, Graph.hasEdge, edge?]

theorem SameView.sound {before after : Graph} (hsame : before.SameView after)
    (hsound : before.Sound) : after.Sound := by
  refine ⟨?_, ?_, ?_, ?_, ?_, ?_⟩
  · rw [hsame.nodes]
    exact hsound.ids
  · rw [hsame.nodes, hsame.nextId]
    exact hsound.below
  · rw [hsame.edges]
    exact hsound.keys
  · rw [hsame.edges]
    intro edge hedge
    simpa only [contains, hsame.node?] using hsound.closed edge hedge
  · rw [hsame.files]
    exact hsound.keyed
  · intro path id
    simpa only [hsame.files, hsame.node?] using hsound.files path id

/-! ### Nodes -/

/-- One more node, under the next id. -/
structure Inserted (before : Graph) (node : Node) (after : Graph) : Prop where
  sound : after.Sound
  nextId : after.nextId = before.nextId + 1
  node? : ∀ id, after.node? id =
    if id = before.nextId then some { node with id := before.nextId } else before.node? id
  hasEdge : ∀ key, after.hasEdge key = before.hasEdge key

/-- One node replaced. -/
structure Updated (before : Graph) (id : NodeId) (node : Node) (after : Graph) : Prop where
  sound : after.Sound
  nextId : after.nextId = before.nextId
  node? : ∀ other, after.node? other = if other = id then some node else before.node? other
  hasEdge : ∀ key, after.hasEdge key = before.hasEdge key

theorem Inserted.contains {before after : Graph} {node : Node}
    (hinserted : before.Inserted node after) {id : NodeId} (hlive : before.contains id) :
    after.contains id := by
  rw [contains_iff] at *
  obtain ⟨old, hold⟩ := hlive
  rw [hinserted.node?]
  split
  · exact ⟨_, rfl⟩
  · exact ⟨old, hold⟩

theorem node?_of_append {after : Graph} {node : Node} (hnodes : after.nodes = graph.nodes ++ [node])
    (hfresh : graph.node? node.id = none) (id : NodeId) :
    after.node? id = if id = node.id then some node else graph.node? id := by
  rw [Graph.node?, hnodes, List.find?_append]
  split
  · rename_i heq
    subst heq
    rw [Graph.node?] at hfresh
    simp [hfresh]
  · rename_i hne
    simp [Ne.symm hne, Graph.node?]

/-- What adding a node does to each part of the graph. -/
structure Appended (before : Graph) (node : Node) (after : Graph) : Prop where
  free : ¬ (node.kind = .file ∧ before.files.contains node.path.tidy = true)
  nodes : after.nodes = before.nodes ++ [{ node with id := before.nextId }]
  slots : after.slots = before.slots.insert before.nextId
  edges : after.edges = before.edges
  names : after.names = match node.name with
    | some name => before.names.insert name before.nextId
    | none => before.names
  files : after.files =
    if node.kind = .file then before.files.put node.path.tidy before.nextId else before.files
  nextId : after.nextId = before.nextId + 1
  journal : after.journal =
    before.journal.map fun delta => delta.merge { addedNodes := [before.nextId] }

theorem appended_insertNode {node : Node} {id : NodeId} {after : Graph}
    (hinsert : graph.insertNode node = .ok (id, after)) :
    id = graph.nextId ∧ graph.Appended node after := by
  rw [insertNode] at hinsert
  split at hinsert
  · cases hinsert
  · rename_i hfree
    obtain ⟨rfl, rfl⟩ := Prod.mk.inj (Except.ok.inj hinsert)
    exact ⟨rfl, hfree, rfl, rfl, rfl, rfl, rfl, rfl, rfl⟩

theorem Appended.node? {before after : Graph} {node : Node} (happended : before.Appended node after)
    (hfresh : before.node? before.nextId = none) (id : NodeId) : after.node? id =
      if id = before.nextId then some { node with id := before.nextId } else before.node? id :=
  node?_of_append happended.nodes hfresh id

/-- The files after a node was added, which is at a path of its own if it stands for a file. -/
theorem Sound.files_append (hsound : graph.Sound) {node : Node} {after : Graph}
    (hfile : node.kind = .file → graph.files.get? node.path.tidy = none)
    (hnode : ∀ id, after.node? id =
      if id = graph.nextId then some { node with id := graph.nextId } else graph.node? id)
    (hfiles : after.files =
      if node.kind = .file then graph.files.put node.path.tidy graph.nextId else graph.files)
    (path : Path) (id : NodeId) : after.files.get? path = some id ↔
      ∃ node, after.node? id = some node ∧ node.kind = .file ∧ node.path.tidy = path := by
  by_cases hnew : node.kind = .file ∧ node.path.tidy = path
  · obtain ⟨hkind, rfl⟩ := hnew
    rw [hfiles, if_pos hkind, Table.get?_put_self, hnode]
    constructor
    · intro hid
      obtain rfl := Option.some.inj hid
      exact ⟨{ node with id := graph.nextId }, if_pos rfl, hkind, rfl⟩
    · rintro ⟨other, hother, hotherKind, hpath⟩
      split at hother
      · rename_i heq
        rw [heq]
      · have hold := (hsound.files _ id).2 ⟨other, hother, hotherKind, hpath⟩
        rw [hfile hkind] at hold
        cases hold
  · have hkept : after.files.get? path = graph.files.get? path := by
      rw [hfiles]
      split
      · rename_i hkind
        exact Table.get?_put_of_ne _ _ fun heq => hnew ⟨hkind, heq.symm⟩
      · rfl
    rw [hkept, hsound.files, hnode]
    constructor
    · rintro ⟨other, hother, hrest⟩
      exact ⟨other, (if_neg (hsound.lt_nextId hother).ne).trans hother, hrest⟩
    · rintro ⟨other, hother, hkind, hpath⟩
      split at hother
      · obtain rfl := Option.some.inj hother
        exact absurd ⟨hkind, hpath⟩ hnew
      · exact ⟨other, hother, hkind, hpath⟩

theorem exists_insertNode (hsound : graph.Sound) (node : Node)
    (hfile : node.kind = .file → graph.files.get? node.path.tidy = none) :
    ∃ after, graph.insertNode node = .ok (graph.nextId, after) ∧ graph.Inserted node after := by
  have hfree : ¬ (node.kind = .file ∧ graph.files.contains node.path.tidy = true) := by
    rintro ⟨hkind, hcontains⟩
    rw [Table.contains_eq_false_iff.2 (hfile hkind)] at hcontains
    cases hcontains
  obtain ⟨id, after, hrun⟩ : ∃ id after, graph.insertNode node = .ok (id, after) := by
    rw [insertNode, if_neg hfree]
    exact ⟨_, _, rfl⟩
  obtain ⟨rfl, happended⟩ := appended_insertNode hrun
  have hnode := happended.node? (hsound.node?_eq_none_of_le (Nat.le_refl graph.nextId))
  have hedge : ∀ key, after.hasEdge key = graph.hasEdge key := fun key => by
    rw [hasEdge, edge?, happended.edges, hasEdge, edge?]
  refine ⟨after, hrun, ⟨?_, ?_, happended.edges ▸ hsound.keys, ?_, ?_, ?_⟩, happended.nextId, hnode,
    hedge⟩
  · rw [happended.nodes, List.map_append]
    refine hsound.ids.append (List.nodup_singleton _) ?_
    intro id hold hnew
    obtain ⟨old, hmem, rfl⟩ := List.mem_map.1 hold
    exact absurd (hsound.below old hmem) (by simpa using (List.mem_singleton.1 hnew).ge)
  · intro other hother
    rw [happended.nextId]
    rw [happended.nodes] at hother
    rcases List.mem_append.1 hother with hold | hnew
    · exact (hsound.below other hold).trans (Nat.lt_succ_self _)
    · rw [List.mem_singleton.1 hnew]
      exact Nat.lt_succ_self _
  · have hlive : ∀ id, graph.contains id → after.contains id := by
      intro id hid
      obtain ⟨old, hold⟩ := contains_iff.1 hid
      rw [contains_iff, hnode]
      split
      · exact ⟨_, rfl⟩
      · exact ⟨old, hold⟩
    intro edge hmem
    obtain ⟨hsource, htarget⟩ := hsound.closed edge (happended.edges ▸ hmem)
    exact ⟨hlive _ hsource, hlive _ htarget⟩
  · rw [happended.files]
    split
    · exact hsound.keyed.put _ _
    · exact hsound.keyed
  · exact hsound.files_append hfile hnode happended.files

theorem Updated.contains {before after : Graph} {id : NodeId} {node : Node}
    (hupdated : before.Updated id node after) {other : NodeId} (hlive : before.contains other) :
    after.contains other := by
  rw [contains_iff] at *
  obtain ⟨old, hold⟩ := hlive
  rw [hupdated.node?]
  split
  · exact ⟨node, rfl⟩
  · exact ⟨old, hold⟩

theorem node?_setNode {node : Node} (hlive : graph.contains node.id) (id : NodeId) :
    (graph.setNode node).node? id = if id = node.id then some node else graph.node? id := by
  have hfind : ∀ nodes : List Node,
      (nodes.map fun old => if old.id = node.id then node else old).find?
          (fun other => other.id = id) =
        if id = node.id then (nodes.find? fun other => other.id = id).map fun _ => node
        else nodes.find? fun other => other.id = id := by
    intro nodes
    induction nodes with
    | nil => split <;> rfl
    | cons head rest ih =>
      rw [List.map_cons, List.find?_cons, List.find?_cons, ih]
      by_cases hid : id = node.id
      · subst hid
        by_cases hhead : head.id = node.id <;> simp [hhead]
      · by_cases hhead : head.id = node.id
        · have hne : ¬ node.id = id := Ne.symm hid
          simp [hhead, hid, hne]
        · simp [hhead, hid]
  rw [Graph.node?, setNode, hfind]
  split
  · rename_i heq
    obtain ⟨old, hold⟩ := contains_iff.1 hlive
    rw [Graph.node?, ← heq] at hold
    rw [hold, Option.map_some]
  · rfl

theorem map_id_setNode (graph : Graph) (node : Node) :
    (graph.setNode node).nodes.map Node.id = graph.nodes.map Node.id := by
  rw [setNode, List.map_map]
  refine List.map_congr_left fun old _ => ?_
  simp only [Function.comp_apply]
  split
  · rename_i heq
    exact heq.symm
  · rfl

theorem sameView_renameNode (graph : Graph) (id : NodeId) (old new : Option String) :
    graph.SameView (graph.renameNode id old new) := by
  unfold renameNode
  split
  · exact ⟨rfl, rfl, rfl, rfl⟩
  · exact ⟨rfl, rfl, rfl, rfl⟩

/-- A replaced node keeps the graph sound once the file index has followed it. -/
theorem updated_of_view (hsound : graph.Sound) {id : NodeId} {before node : Node} {after : Graph}
    (hbefore : graph.node? id = some before) (hid : node.id = id)
    (hnodes : after.nodes = (graph.setNode node).nodes) (hedges : after.edges = graph.edges)
    (hnextId : after.nextId = graph.nextId) (hkeyed : after.files.Keyed)
    (hfiles : ∀ path other, after.files.get? path = some other ↔
      ∃ found, (if other = id then some node else graph.node? other) = some found ∧
        found.kind = .file ∧ found.path.tidy = path) :
    graph.Updated id node after := by
  subst hid
  have hnode : ∀ other, after.node? other =
      if other = node.id then some node else graph.node? other := by
    intro other
    rw [← node?_setNode (contains_of_node? hbefore), Graph.node?, hnodes, Graph.node?]
  have hids : after.nodes.map Node.id = graph.nodes.map Node.id := by
    rw [hnodes, map_id_setNode]
  have hlive : ∀ other, graph.contains other → after.contains other := by
    intro other hother
    obtain ⟨old, hold⟩ := contains_iff.1 hother
    rw [contains_iff, hnode]
    split
    · exact ⟨node, rfl⟩
    · exact ⟨old, hold⟩
  refine ⟨⟨hids ▸ hsound.ids, ?_, hedges ▸ hsound.keys, ?_, hkeyed, ?_⟩, hnextId, hnode, ?_⟩
  · intro other hother
    have hmem : other.id ∈ graph.nodes.map Node.id := hids ▸ List.mem_map_of_mem hother
    obtain ⟨old, hold, hsame⟩ := List.mem_map.1 hmem
    rw [hnextId, ← hsame]
    exact hsound.below old hold
  · rw [hedges]
    intro edge hedge
    obtain ⟨hsource, htarget⟩ := hsound.closed edge hedge
    exact ⟨hlive _ hsource, hlive _ htarget⟩
  · intro path other
    rw [hfiles, hnode]
  · intro key
    rw [Graph.hasEdge, edge?, hedges, Graph.hasEdge, edge?]

/-- What an update makes of a node: its id and kind stay. -/
def changed (before : Node) (change : Node → Node) : Node :=
  { change before with id := before.id, kind := before.kind }

/-- What an update does to all but the files, whatever it answers. -/
structure Retouched (before : Graph) (id : NodeId) (old new : Node) (after : Graph) : Prop where
  nodes : after.nodes = (before.setNode new).nodes
  slots : after.slots = before.slots
  edges : after.edges = before.edges
  names : after.names = (before.renameNode id old.name new.name).names
  nextId : after.nextId = before.nextId

theorem retouched_updateNode {id : NodeId} {before : Node} (hbefore : graph.node? id = some before)
    (change : Node → Node) :
    graph.Retouched id before (changed before change) (graph.updateNode id change).1 := by
  have hchanged : ({ change before with id, kind := before.kind } : Node) =
      changed before change := by
    rw [changed, id_of_node? hbefore]
  have hrenamed : graph.Retouched id before (changed before change)
      ((graph.setNode (changed before change)).renameNode id before.name (change before).name) := by
    have hset := sameView_renameNode (graph.setNode (changed before change)) id before.name
      (change before).name
    refine ⟨hset.nodes, ?_, hset.edges, ?_, hset.nextId⟩
    · unfold renameNode
      split <;> rfl
    · have hname : (changed before change).name = (change before).name := rfl
      rw [hname]
      unfold renameNode
      split <;> rfl
  rw [updateNode, hbefore]
  simp only [hchanged]
  split
  · rename_i hsame
    have hname : before.name = (changed before change).name := by
      rw [Node.same, Bool.and_eq_true, decide_eq_true_eq] at hsame
      exact (congrArg Node.name hsame.2).symm
    refine ⟨rfl, rfl, rfl, ?_, rfl⟩
    unfold renameNode
    rw [if_pos hname]
    rfl
  · split
    · split
      · exact hrenamed
      · exact ⟨hrenamed.nodes, hrenamed.slots, hrenamed.edges, hrenamed.names, hrenamed.nextId⟩
    · exact ⟨hrenamed.nodes, hrenamed.slots, hrenamed.edges, hrenamed.names, hrenamed.nextId⟩

theorem edges_updateNode (graph : Graph) (id : NodeId) (change : Node → Node) :
    (graph.updateNode id change).1.edges = graph.edges := by
  cases hbefore : graph.node? id with
  | none => rw [updateNode, hbefore]
  | some before => exact (retouched_updateNode hbefore change).edges

/-- The node is what it was changed to, whatever the update answers, and no other node differs. -/
theorem node?_updateNode {id : NodeId} {before : Node} (hbefore : graph.node? id = some before)
    (change : Node → Node) (other : NodeId) : (graph.updateNode id change).1.node? other =
      if other = id then some (changed before change) else graph.node? other := by
  have hid : (changed before change).id = id := show before.id = id from id_of_node? hbefore
  have hset := node?_setNode (hid ▸ contains_of_node? hbefore) other
  rw [hid] at hset
  rw [← hset, Graph.node?, (retouched_updateNode hbefore change).nodes, Graph.node?]

theorem contains_updateNode (graph : Graph) (id : NodeId) (change : Node → Node) (other : NodeId) :
    (graph.updateNode id change).1.contains other = graph.contains other := by
  cases hbefore : graph.node? id with
  | none => rw [updateNode, hbefore]
  | some before =>
    rw [contains, node?_updateNode hbefore, contains]
    split
    · rename_i heq
      rw [heq, hbefore]
      rfl
    · rfl

/-- What an update does to the files: a file that moves takes its new path, which has to be free. -/
theorem updateNode_files {id : NodeId} {before : Node} (hbefore : graph.node? id = some before)
    (change : Node → Node) :
    (∃ done, (graph.updateNode id change).2 = .ok done ∧
      (graph.updateNode id change).1.files = graph.files ∧
      (before.kind = .file → (change before).path.tidy = before.path.tidy)) ∨
    (before.kind = .file ∧ graph.files.get? (change before).path.tidy = none ∧
      (graph.updateNode id change).2 = .ok true ∧
      (graph.updateNode id change).1.files =
        (graph.files.erase before.path.tidy).put (change before).path.tidy id) ∨
    (before.kind = .file ∧ graph.files.get? (change before).path.tidy ≠ none ∧
      before.path ≠ (change before).path ∧
      (graph.updateNode id change).2 = .error (.fileExists (change before).path) ∧
      (graph.updateNode id change).1.files = graph.files) := by
  have hfiles : ∀ node old new, ((graph.setNode node).renameNode id old new).files = graph.files :=
    fun node old new => (sameView_renameNode (graph.setNode node) id old new).files
  rw [updateNode, hbefore]
  simp only
  split
  · rename_i hsame
    refine .inl ⟨false, rfl, rfl, fun _ => ?_⟩
    rw [Node.same, Bool.and_eq_true, Path.same, decide_eq_true_eq] at hsame
    exact congrArg Path.ofComponents hsame.1
  · split
    · rename_i hmoves
      obtain ⟨hkind, hdiffers⟩ := hmoves
      rw [hfiles]
      split
      · rename_i htaken
        refine .inr (.inr ⟨hkind, fun hfree => ?_, fun hsame => hdiffers ?_, rfl, hfiles _ _ _⟩)
        · rw [Table.contains_eq_false_iff.2 hfree] at htaken
          cases htaken
        · rw [Path.same, decide_eq_true_eq, hsame]
      · rename_i hfree
        refine .inr (.inl ⟨hkind, ?_, rfl, ?_⟩)
        · exact Table.contains_eq_false_iff.1 (Bool.not_eq_true _ ▸ hfree)
        · rfl
    · rename_i hstays
      refine .inl ⟨true, rfl, hfiles _ _ _, fun hkind => ?_⟩
      have hsame : before.path.same (change before).path := by
        by_contra hne
        exact hstays ⟨hkind, hne⟩
      rw [Path.same, decide_eq_true_eq] at hsame
      exact congrArg Path.ofComponents hsame.symm

/-- A file whose path stays keeps its place in the index, -/
theorem Sound.files_stay (hsound : graph.Sound) {id : NodeId} {before node : Node}
    (hbefore : graph.node? id = some before) (hkind : node.kind = before.kind)
    (hstays : before.kind = .file → node.path.tidy = before.path.tidy) (path : Path)
    (other : NodeId) :
    graph.files.get? path = some other ↔
      ∃ found, (if other = id then some node else graph.node? other) = some found ∧
        found.kind = .file ∧ found.path.tidy = path := by
  rw [hsound.files]
  by_cases hother : other = id
  · subst hother
    rw [if_pos rfl, hbefore]
    constructor
    · rintro ⟨found, hfound, hfile, htidy⟩
      obtain rfl := Option.some.inj hfound
      exact ⟨node, rfl, hkind.trans hfile, (hstays hfile).trans htidy⟩
    · rintro ⟨found, hfound, hfile, htidy⟩
      obtain rfl := Option.some.inj hfound
      have hfile := hkind.symm.trans hfile
      exact ⟨before, rfl, hfile, (hstays hfile).symm.trans htidy⟩
  · rw [if_neg hother]

/-- and one that moves to a path that is free is found there and no longer where it was. -/
theorem Sound.files_move (hsound : graph.Sound) {id : NodeId} {before node : Node}
    (hbefore : graph.node? id = some before) (hkind : before.kind = .file)
    (hfile : node.kind = .file) (hfree : graph.files.get? node.path.tidy = none) (path : Path)
    (other : NodeId) :
    ((graph.files.erase before.path.tidy).put node.path.tidy id).get? path = some other ↔
      ∃ found, (if other = id then some node else graph.node? other) = some found ∧
        found.kind = .file ∧ found.path.tidy = path := by
  rw [Table.get?_put, Table.get?_erase]
  have hold : graph.files.get? before.path.tidy = some id :=
    (hsound.files _ _).2 ⟨before, hbefore, hkind, rfl⟩
  by_cases hother : other = id
  · subst hother
    rw [if_pos rfl]
    constructor
    · intro hget
      split at hget
      · rename_i htidy
        exact ⟨node, rfl, hfile, htidy.symm⟩
      · split at hget
        · cases hget
        · rename_i hne
          obtain ⟨found, hfound, -, htidy⟩ := (hsound.files _ _).1 hget
          rw [hbefore] at hfound
          obtain rfl := Option.some.inj hfound
          exact absurd htidy.symm hne
    · rintro ⟨found, hfound, -, htidy⟩
      obtain rfl := Option.some.inj hfound
      exact if_pos htidy.symm
  · rw [if_neg hother]
    constructor
    · intro hget
      split at hget
      · exact absurd (Option.some.inj hget).symm hother
      · split at hget
        · cases hget
        · exact (hsound.files _ _).1 hget
    · intro hfound
      have hget := (hsound.files path other).2 hfound
      split
      · rename_i htidy
        rw [htidy, hfree] at hget
        cases hget
      · split
        · rename_i htidy
          rw [htidy, hold] at hget
          exact absurd (Option.some.inj hget).symm hother
        · exact hget

/-- An update that is not refused replaces the node. -/
theorem updated_updateNode (hsound : graph.Sound) {id : NodeId} {before : Node} {after : Graph}
    {change : Node → Node} {done : Bool} (hbefore : graph.node? id = some before)
    (hrun : graph.updateNode id change = (after, .ok done)) :
    graph.Updated id (changed before change) after := by
  have hid : before.id = id := id_of_node? hbefore
  have hretouched := retouched_updateNode hbefore change
  have hcases := updateNode_files hbefore change
  have hkind : (changed before change).kind = before.kind := rfl
  rw [hrun] at hretouched hcases
  rcases hcases with ⟨-, -, hfiles, hsame⟩ | ⟨hfile, hfree, -, hfiles⟩ |
    ⟨-, -, -, hrefused, -⟩
  · refine updated_of_view hsound hbefore hid hretouched.nodes hretouched.edges hretouched.nextId
      (hfiles ▸ hsound.keyed) fun path other => ?_
    rw [hfiles]
    exact hsound.files_stay hbefore hkind hsame path other
  · refine updated_of_view hsound hbefore hid hretouched.nodes hretouched.edges hretouched.nextId
      (hfiles ▸ (hsound.keyed.erase _).put _ _) fun path other => ?_
    rw [hfiles]
    exact hsound.files_move hbefore hfile (hkind.trans hfile) hfree path other
  · cases hrefused

/-- An update finds its node, and a file that moves finds its new path free. -/
theorem exists_updateNode (hsound : graph.Sound) {id : NodeId} {before : Node}
    (change : Node → Node) (hbefore : graph.node? id = some before)
    (hpath : before.kind = .file → (change before).path = before.path ∨
      graph.files.get? (change before).path.tidy = none) :
    ∃ done after, graph.updateNode id change = (after, .ok done) ∧
      graph.Updated id (changed before change) after := by
  obtain ⟨done, hdone⟩ : ∃ done, (graph.updateNode id change).2 = .ok done := by
    rcases updateNode_files hbefore change with ⟨done, hdone, -⟩ | ⟨-, -, hdone, -⟩ |
      ⟨hkind, htaken, hmoves, -⟩
    · exact ⟨done, hdone⟩
    · exact ⟨true, hdone⟩
    · rcases hpath hkind with hsame | hfree
      · exact absurd hsame.symm hmoves
      · exact absurd hfree htaken
  have hrun : graph.updateNode id change = ((graph.updateNode id change).1, .ok done) :=
    Prod.ext rfl hdone
  exact ⟨done, _, hrun, updated_updateNode hsound hbefore hrun⟩

theorem exists_update (hsound : graph.Sound) {id : NodeId} {before : Node} (change : Node → Node)
    (hbefore : graph.node? id = some before)
    (hpath : before.kind = .file → (change before).path = before.path ∨
      graph.files.get? (change before).path.tidy = none) :
    ∃ after, graph.update id change = .ok after ∧
      graph.Updated id (changed before change) after := by
  obtain ⟨done, after, hrun, hupdated⟩ := exists_updateNode hsound change hbefore hpath
  exact ⟨after, by rw [update, hrun], hupdated⟩

/-! ### Edges -/

/-- Only the edges differ. -/
structure Rewired (before after : Graph) : Prop where
  sound : after.Sound
  nextId : after.nextId = before.nextId
  node? : ∀ id, after.node? id = before.node? id

theorem Rewired.refl (hsound : graph.Sound) : graph.Rewired graph :=
  ⟨hsound, rfl, fun _ => rfl⟩

theorem Rewired.trans {first second third : Graph} (hfirst : first.Rewired second)
    (hsecond : second.Rewired third) : first.Rewired third :=
  ⟨hsecond.sound, hsecond.nextId.trans hfirst.nextId,
    fun id => (hsecond.node? id).trans (hfirst.node? id)⟩

theorem Rewired.contains {before after : Graph} (hrewired : before.Rewired after) (id : NodeId) :
    after.contains id = before.contains id := by
  rw [Graph.contains, hrewired.node?, Graph.contains]

/-- The graphs differ at most in their edges and in what is recorded. -/
structure SameNodes (before after : Graph) : Prop where
  nodes : after.nodes = before.nodes
  slots : after.slots = before.slots
  names : after.names = before.names
  files : after.files = before.files
  nextId : after.nextId = before.nextId

theorem SameNodes.node? {before after : Graph} (hsame : before.SameNodes after) (id : NodeId) :
    after.node? id = before.node? id := by
  rw [Graph.node?, hsame.nodes, Graph.node?]

/-- Other edges between live nodes, each key once. -/
theorem rewired_of_edges (hsound : graph.Sound) {after : Graph} (hsame : graph.SameNodes after)
    (hkeys : (after.edges.map Edge.key).Nodup)
    (hclosed : ∀ edge ∈ after.edges, graph.contains edge.source ∧ graph.contains edge.target) :
    graph.Rewired after := by
  refine ⟨⟨hsame.nodes ▸ hsound.ids, ?_, hkeys, ?_, hsame.files ▸ hsound.keyed, ?_⟩, hsame.nextId,
    hsame.node?⟩
  · rw [hsame.nodes, hsame.nextId]
    exact hsound.below
  · intro edge hedge
    simpa only [Graph.contains, hsame.node?] using hclosed edge hedge
  · intro path id
    simpa only [hsame.files, hsame.node?] using hsound.files path id

/-- The graph with an edge in the place of the one with its key. -/
def setEdge (graph : Graph) (edge : Edge) : Graph :=
  { graph with
    edges := graph.edges.map fun other => if other.key = edge.key then edge else other }

/-- What an edge between live nodes makes of the graph: nothing if it stands there as it is, else it
takes the place of the edge with its key, or becomes the newest. -/
inductive WithEdge (before : Graph) (edge : Edge) : Graph → Prop
  | kept {old : Edge} (hold : before.edge? edge.key = some old) (hsame : old.same edge = true) :
    WithEdge before edge before
  | replaced {old : Edge} (hold : before.edge? edge.key = some old) :
    WithEdge before edge ((before.setEdge edge).record { modifiedEdges := [edge.key] })
  | added (hnone : before.edge? edge.key = none) :
    WithEdge before edge (({ before with edges := edge :: before.edges }).record
      { addedEdges := [edge.key] })

theorem withEdge_insertEdge {edge : Edge} {done : Bool} {after : Graph}
    (hinsert : graph.insertEdge edge = .ok (done, after)) :
    (graph.contains edge.source ∧ graph.contains edge.target) ∧ graph.WithEdge edge after := by
  rw [insertEdge] at hinsert
  split at hinsert
  · cases hinsert
  · rename_i hlive
    rw [not_or, not_not, not_not] at hlive
    refine ⟨hlive, ?_⟩
    split at hinsert
    · rename_i old hold
      split at hinsert
      · rename_i hsame
        exact (Prod.mk.inj (Except.ok.inj hinsert)).2 ▸ .kept hold hsame
      · exact (Prod.mk.inj (Except.ok.inj hinsert)).2 ▸ .replaced hold
    · rename_i hnone
      exact (Prod.mk.inj (Except.ok.inj hinsert)).2 ▸ .added hnone

theorem sameNodes_insertEdge {edge : Edge} {done : Bool} {after : Graph}
    (hinsert : graph.insertEdge edge = .ok (done, after)) : graph.SameNodes after := by
  cases (withEdge_insertEdge hinsert).2 <;> exact ⟨rfl, rfl, rfl, rfl, rfl⟩

/-- An edge that is added joins live nodes, and no key stands twice. -/
theorem edges_insertEdge {edge : Edge} {done : Bool} {after : Graph}
    (hinsert : graph.insertEdge edge = .ok (done, after))
    (hkeys : (graph.edges.map Edge.key).Nodup)
    (hclosed : ∀ other ∈ graph.edges, graph.contains other.source ∧ graph.contains other.target) :
    (after.edges.map Edge.key).Nodup ∧
      ∀ other ∈ after.edges, graph.contains other.source ∧ graph.contains other.target := by
  obtain ⟨hlive, hafter⟩ := withEdge_insertEdge hinsert
  cases hafter with
  | kept => exact ⟨hkeys, hclosed⟩
  | replaced =>
    constructor
    · have hsame : (graph.edges.map fun other => if other.key = edge.key then edge else other).map
          Edge.key = graph.edges.map Edge.key := by
        rw [List.map_map]
        refine List.map_congr_left fun other _ => ?_
        simp only [Function.comp_apply]
        split
        · rename_i hkey
          exact hkey.symm
        · rfl
      exact hsame.symm ▸ hkeys
    · intro other hother
      obtain ⟨before, hbefore, rfl⟩ := List.mem_map.1 hother
      split
      · exact hlive
      · exact hclosed before hbefore
  | added hnone =>
    constructor
    · refine List.nodup_cons.2 ⟨fun hmem => ?_, hkeys⟩
      obtain ⟨other, hother, hsame⟩ := List.mem_map.1 hmem
      have hdiffers := List.find?_eq_none.1 hnone other hother
      simp [hsame] at hdiffers
    · intro other hother
      rcases List.mem_cons.1 hother with rfl | hother
      · exact hlive
      · exact hclosed other hother

theorem hasEdge_insertEdge {edge : Edge} {done : Bool} {after : Graph}
    (hinsert : graph.insertEdge edge = .ok (done, after)) (key : EdgeKey) :
    after.hasEdge key ↔ key = edge.key ∨ graph.hasEdge key := by
  cases (withEdge_insertEdge hinsert).2 with
  | kept hold =>
    refine ⟨.inr, ?_⟩
    rintro (rfl | hkey)
    · rw [hasEdge, hold, Option.isSome_some]
    · exact hkey
  | @replaced old hold =>
    have hmem : old ∈ graph.edges := List.mem_of_find?_eq_some hold
    have hkey : old.key = edge.key := by simpa using List.find?_some hold
    rw [hasEdge_record, hasEdge_iff, hasEdge_iff]
    constructor
    · rintro ⟨other, hother, rfl⟩
      obtain ⟨before, hbefore, rfl⟩ := List.mem_map.1 hother
      split
      · exact .inl rfl
      · exact .inr ⟨before, hbefore, rfl⟩
    · rintro (rfl | ⟨other, hother, rfl⟩)
      · exact ⟨_, List.mem_map_of_mem hmem, by rw [if_pos hkey]⟩
      · refine ⟨_, List.mem_map_of_mem hother, ?_⟩
        split
        · rename_i hsame
          exact hsame.symm
        · rfl
  | added =>
    rw [hasEdge_record, hasEdge_iff, hasEdge_iff]
    simp only [List.mem_cons, exists_eq_or_imp]
    rw [eq_comm]

theorem exists_insertEdge (hsound : graph.Sound) {edge : Edge}
    (hsource : graph.contains edge.source) (htarget : graph.contains edge.target) :
    ∃ done after, graph.insertEdge edge = .ok (done, after) ∧ graph.Rewired after ∧
      ∀ key, after.hasEdge key ↔ key = edge.key ∨ graph.hasEdge key := by
  have hlive : ¬ (¬ graph.contains edge.source ∨ ¬ graph.contains edge.target) := by
    simp [hsource, htarget]
  obtain ⟨done, after, hrun⟩ : ∃ done after, graph.insertEdge edge = .ok (done, after) := by
    rw [insertEdge, if_neg hlive]
    split
    · split <;> exact ⟨_, _, rfl⟩
    · exact ⟨_, _, rfl⟩
  obtain ⟨hkeys, hclosed⟩ := edges_insertEdge hrun hsound.keys hsound.closed
  exact ⟨done, after, hrun, rewired_of_edges hsound (sameNodes_insertEdge hrun) hkeys hclosed,
    hasEdge_insertEdge hrun⟩

/-- Edges between live nodes are all added. -/
theorem exists_insertEdges (hsound : graph.Sound) (edges : List Edge)
    (hlive : ∀ edge ∈ edges, graph.contains edge.source ∧ graph.contains edge.target) :
    ∃ after, graph.insertEdges edges = .ok after ∧ graph.Rewired after ∧
      ∀ key, after.hasEdge key ↔ (∃ edge ∈ edges, edge.key = key) ∨ graph.hasEdge key := by
  induction edges generalizing graph with
  | nil => exact ⟨graph, rfl, .refl hsound, fun key => by simp⟩
  | cons edge rest ih =>
    obtain ⟨hsource, htarget⟩ := hlive edge List.mem_cons_self
    obtain ⟨done, middle, hrun, hrewired, hedge⟩ := exists_insertEdge hsound hsource htarget
    obtain ⟨after, hrest, hrewired', hedges⟩ := ih hrewired.sound fun other hother => by
      rw [hrewired.contains, hrewired.contains]
      exact hlive other (List.mem_cons_of_mem edge hother)
    refine ⟨after, ?_, hrewired.trans hrewired', fun key => ?_⟩
    · rw [insertEdges, List.foldlM_cons, hrun]
      exact hrest
    · rw [hedges, hedge]
      simp only [List.mem_cons, exists_eq_or_imp]
      rw [eq_comm (a := key), or_left_comm, or_assoc]

/-- At most one edge, to or from a node that may be there. -/
theorem exists_insertOptional (hsound : graph.Sound) (end? : Option NodeId) (edge : NodeId → Edge)
    (hlive : ∀ id, end? = some id →
      graph.contains (edge id).source ∧ graph.contains (edge id).target) :
    ∃ after, graph.insertEdges (end?.toList.map edge) = .ok after ∧ graph.Rewired after ∧
      ∀ key, after.hasEdge key ↔ (∃ id, end? = some id ∧ key = (edge id).key) ∨
        graph.hasEdge key := by
  obtain ⟨after, hrun, hrewired, hedges⟩ := exists_insertEdges hsound
    (end?.toList.map edge) (by
      intro other hother
      obtain ⟨id, hid, rfl⟩ := List.mem_map.1 hother
      exact hlive id (Option.mem_toList.1 hid))
  refine ⟨after, hrun, hrewired, fun key => ?_⟩
  rw [hedges]
  refine or_congr_left ?_
  simp only [List.mem_map, Option.mem_toList]
  constructor
  · rintro ⟨other, ⟨id, hid, rfl⟩, rfl⟩
    exact ⟨id, hid, rfl⟩
  · rintro ⟨id, hid, rfl⟩
    exact ⟨_, ⟨id, hid, rfl⟩, rfl⟩

/-- A node is added together with the edge that lists it under its owner. -/
theorem exists_insertNode_under (hsound : graph.Sound) {owner : NodeId}
    (howner : graph.contains owner) (node : Node) (hkind : node.kind ≠ .file) (kind : EdgeKind) :
    ∃ inserted after, graph.insertNode node = .ok (graph.nextId, inserted) ∧
      inserted.insertEdges [Edge.structural owner graph.nextId kind] = .ok after ∧ after.Sound ∧
      after.nextId = graph.nextId + 1 ∧
      (∀ id, after.node? id =
        if id = graph.nextId then some { node with id := graph.nextId } else graph.node? id) ∧
      ∀ key, after.hasEdge key ↔ key = ⟨owner, graph.nextId, kind⟩ ∨ graph.hasEdge key := by
  obtain ⟨inserted, hrun, hinserted⟩ :=
    exists_insertNode hsound node fun hfile => absurd hfile hkind
  have hnew : inserted.contains graph.nextId :=
    contains_of_node? ((hinserted.node? _).trans (if_pos rfl))
  obtain ⟨after, hedges, hrewired, hedge⟩ := exists_insertEdges hinserted.sound
    [Edge.structural owner graph.nextId kind] fun edge hmem => by
      obtain rfl := List.mem_singleton.1 hmem
      exact ⟨hinserted.contains howner, hnew⟩
  refine ⟨inserted, after, hrun, hedges, hrewired.sound, hrewired.nextId.trans hinserted.nextId,
    fun id => (hrewired.node? id).trans (hinserted.node? id), fun key => ?_⟩
  rw [hedge, hinserted.hasEdge]
  refine or_congr_left ⟨?_, fun hkey => ⟨_, List.mem_singleton_self _, hkey.symm⟩⟩
  rintro ⟨edge, hmem, rfl⟩
  exact congrArg Edge.key (List.mem_singleton.1 hmem)

theorem sameNodes_removeEdge (graph : Graph) (key : EdgeKey) :
    graph.SameNodes (graph.removeEdge key).2 := by
  rw [removeEdge]
  split <;> exact ⟨rfl, rfl, rfl, rfl, rfl⟩

theorem edges_removeEdge (graph : Graph) (key : EdgeKey) :
    (graph.removeEdge key).2.edges = graph.edges.filter fun other => other.key ≠ key := by
  rw [removeEdge]
  cases hold : graph.edge? key with
  | none =>
    refine (List.filter_eq_self.2 fun other hother => ?_).symm
    simpa using List.find?_eq_none.1 hold other hother
  | some edge => rfl

theorem removeEdge_view (hsound : graph.Sound) (key : EdgeKey) :
    graph.Rewired (graph.removeEdge key).2 ∧
      ∀ other, (graph.removeEdge key).2.hasEdge other ↔ graph.hasEdge other ∧ other ≠ key := by
  have hedges := edges_removeEdge graph key
  constructor
  · refine rewired_of_edges hsound (sameNodes_removeEdge graph key) ?_ ?_
    · exact (List.Sublist.map Edge.key (hedges ▸ List.filter_sublist)).nodup hsound.keys
    · intro other hother
      exact hsound.closed other (List.mem_filter.1 (hedges ▸ hother)).1
  · intro other
    simp only [hasEdge_iff, hedges, List.mem_filter, decide_eq_true_eq]
    constructor
    · rintro ⟨found, ⟨hfound, hne⟩, rfl⟩
      exact ⟨⟨found, hfound, rfl⟩, hne⟩
    · rintro ⟨⟨found, hfound, rfl⟩, hne⟩
      exact ⟨found, ⟨hfound, hne⟩, rfl⟩

theorem removeEdges_view (hsound : graph.Sound) (keys : List EdgeKey) :
    graph.Rewired (graph.removeEdges keys) ∧
      ∀ other, (graph.removeEdges keys).hasEdge other ↔ graph.hasEdge other ∧ other ∉ keys := by
  induction keys generalizing graph with
  | nil => exact ⟨.refl hsound, fun other => by simp [removeEdges]⟩
  | cons key rest ih =>
    obtain ⟨hrewired, hedge⟩ := removeEdge_view hsound key
    obtain ⟨hrewired', hedges⟩ := ih hrewired.sound
    refine ⟨hrewired.trans hrewired', fun other => ?_⟩
    rw [removeEdges, List.foldl_cons]
    rw [removeEdges] at hedges
    rw [hedges, hedge, List.mem_cons, not_or, and_assoc]

end CodeGraph.Graph
