import CodeGraph.Graph.Stored
import CodeGraph.Proofs.Graph.Arena
import CodeGraph.Proofs.Graph.Indices

/-!
# What a stored graph stands for

A stored graph stands for a graph where its two indices lead exactly to what is stored, and where
nodes, edges and the order of the edges at each node are those of the graph. Storing, replacing and
removing a node or an edge keeps it so.
-/

namespace CodeGraph

/-! ### Indices -/

namespace Table

variable {κ α : Type} [DecidableEq κ] {table : Table κ Nat} {slots after : Slots κ} {key : κ}
  {place : Nat}

/-- The index leads from every value to its place, and nowhere else. -/
def Indexes (table : Table κ Nat) (slots : Slots κ) : Prop :=
  ∀ key place, table.get? key = some place ↔ slots.get? place = some key

theorem Indexes.put (hindexes : table.Indexes slots) (hkey : table.get? key = none)
    (hplace : slots.get? place = none) (hafter : ∀ other, after.get? other =
      if other = place then some key else slots.get? other) :
    (table.put key place).Indexes after := by
  intro other found
  rw [get?_put, hafter]
  by_cases hother : other = key
  · subst hother
    rw [if_pos rfl, Option.some.injEq]
    split
    · rename_i hfound
      exact iff_of_true hfound.symm rfl
    · rename_i hfound
      refine iff_of_false (Ne.symm hfound) fun hheld => ?_
      cases hkey.symm.trans ((hindexes other found).2 hheld)
  · rw [if_neg hother]
    split
    · rename_i hfound
      subst hfound
      refine iff_of_false (fun hheld => ?_) fun hsame => hother (Option.some.inj hsame).symm
      cases hplace.symm.trans ((hindexes other found).1 hheld)
    · exact hindexes other found

theorem get?_foldl_erase (table : Table κ α) (keys : List κ) (key : κ) :
    (keys.foldl erase table).get? key = if key ∈ keys then none else table.get? key := by
  induction keys generalizing table with
  | nil => simp
  | cons first rest ih =>
    rw [List.foldl_cons, ih, get?_erase]
    by_cases hfirst : key = first <;> simp [hfirst]

theorem Keyed.foldl_erase (hkeyed : table.Keyed) (keys : List κ) :
    (keys.foldl Table.erase table).Keyed :=
  List.foldlRecOn (motive := Keyed) keys Table.erase hkeyed fun _ hstate key _ => hstate.erase key

/-- Keys go together with their places. -/
theorem Indexes.eraseAll (hindexes : table.Indexes slots) (keys : List κ) (gone : List Nat)
    (hgone : ∀ key place, table.get? key = some place → (key ∈ keys ↔ place ∈ gone))
    (hafter : ∀ other, after.get? other = if other ∈ gone then none else slots.get? other) :
    (keys.foldl erase table).Indexes after := by
  intro key place
  rw [get?_foldl_erase, hafter]
  constructor
  · intro hkey
    split at hkey
    · cases hkey
    · rename_i hkept
      rw [if_neg fun hplace => hkept ((hgone key place hkey).2 hplace)]
      exact (hindexes key place).1 hkey
  · intro hplace
    split at hplace
    · cases hplace
    · rename_i hkept
      have hkey := (hindexes key place).2 hplace
      rw [if_neg fun hgoes => hkept ((hgone key place hkey).1 hgoes)]
      exact hkey

theorem Indexes.erase (hindexes : table.Indexes slots) (hkey : table.get? key = some place)
    (hafter : ∀ other, after.get? other = if other = place then none else slots.get? other) :
    (table.erase key).Indexes after := by
  refine hindexes.eraseAll [key] [place] (fun other found hother => ?_) ?_
  · rw [List.mem_singleton, List.mem_singleton]
    constructor
    · rintro rfl
      exact Option.some.inj (hother.symm.trans hkey)
    · rintro rfl
      exact Option.some.inj (((hindexes other found).1 hother).symm.trans
        ((hindexes key found).1 hkey))
  · simpa only [List.mem_singleton] using hafter

end Table

namespace StoredGraph

variable {stored : StoredGraph} {graph : Graph} {id : NodeId} {place : Nat}

/-- The two indices lead exactly to what is stored, and each edge joins the places of its ends. -/
structure Sound (stored : StoredGraph) : Prop where
  arena : stored.arena.Sound
  ids : stored.ids.Keyed
  keys : stored.edges.Keyed
  ids_iff : stored.ids.Indexes stored.arena.ids
  keys_iff : stored.edges.Indexes stored.arena.keys
  ends : ∀ place link, stored.arena.links.get? place = some link →
    stored.ids.get? link.edge.source = some link.source ∧
      stored.ids.get? link.edge.target = some link.target

theorem Sound.exists_cell (hsound : stored.Sound) (hplace : stored.ids.get? id = some place) :
    ∃ cell, stored.arena.cells.get? place = some cell ∧ cell.node.id = id :=
  Arena.get?_ids.1 ((hsound.ids_iff id place).1 hplace)

theorem Sound.place_of_cell (hsound : stored.Sound) {cell : Cell}
    (hcell : stored.arena.cells.get? place = some cell) :
    stored.ids.get? cell.node.id = some place :=
  (hsound.ids_iff cell.node.id place).2 (Arena.get?_ids.2 ⟨cell, hcell, rfl⟩)

theorem Sound.exists_link (hsound : stored.Sound) {key : EdgeKey}
    (hplace : stored.edges.get? key = some place) :
    ∃ link, stored.arena.links.get? place = some link ∧ link.edge.key = key :=
  Arena.get?_keys.1 ((hsound.keys_iff key place).1 hplace)

theorem Sound.place_of_link (hsound : stored.Sound) {link : Link}
    (hlink : stored.arena.links.get? place = some link) :
    stored.edges.get? link.edge.key = some place :=
  (hsound.keys_iff link.edge.key place).2 (Arena.get?_keys.2 ⟨link, hlink, rfl⟩)

theorem Sound.node?_eq (hsound : stored.Sound) {cell : Cell}
    (hcell : stored.arena.cells.get? place = some cell) :
    stored.node? cell.node.id = some cell.node := by
  rw [node?, hsound.place_of_cell hcell, Option.bind_some, Arena.node?_eq hcell]

/-- Different ids lead to different places. -/
theorem Sound.id_inj (hsound : stored.Sound) {other : NodeId}
    (hid : stored.ids.get? id = some place) (hother : stored.ids.get? other = some place) :
    id = other :=
  Option.some.inj (((hsound.ids_iff id place).1 hid).symm.trans
    ((hsound.ids_iff other place).1 hother))

/-- An edge starts at a place exactly where it starts at the node that is there. -/
theorem Sound.source_eq_iff (hsound : stored.Sound) {edge : Nat} {link : Link}
    (hlink : stored.arena.links.get? edge = some link) (hplace : stored.ids.get? id = some place) :
    link.source = place ↔ link.edge.source = id := by
  have hsource := (hsound.ends edge link hlink).1
  constructor
  · rintro rfl
    exact hsound.id_inj hsource hplace
  · rintro rfl
    exact Option.some.inj (hsource.symm.trans hplace)

theorem Sound.target_eq_iff (hsound : stored.Sound) {edge : Nat} {link : Link}
    (hlink : stored.arena.links.get? edge = some link) (hplace : stored.ids.get? id = some place) :
    link.target = place ↔ link.edge.target = id := by
  have htarget := (hsound.ends edge link hlink).2
  constructor
  · rintro rfl
    exact hsound.id_inj htarget hplace
  · rintro rfl
    exact Option.some.inj (htarget.symm.trans hplace)

/-- An edge is at a place exactly where its key is that of the edge which is there. -/
theorem Sound.place_eq_iff (hsound : stored.Sound) {edge : Nat} {link : Link} {key : EdgeKey}
    (hlink : stored.arena.links.get? edge = some link) (hkey : stored.edges.get? key = some place) :
    edge = place ↔ link.edge.key = key := by
  constructor
  · rintro rfl
    obtain ⟨found, hfound, rfl⟩ := hsound.exists_link hkey
    rw [hlink] at hfound
    rw [Option.some.inj hfound]
  · rintro rfl
    exact Option.some.inj ((hsound.place_of_link hlink).symm.trans hkey)

/-! ### What is stored -/

/-- The nodes and the edges of the graph are stored, in the order of the graph at each node. -/
structure Stores (stored : StoredGraph) (graph : Graph) : Prop extends stored.Sound where
  node? : ∀ id, stored.node? id = graph.node? id
  mem_edges : ∀ edge, edge ∈ graph.edges ↔ ∃ place, stored.arena.edge? place = some edge
  edgesFrom : ∀ id, stored.edgesFrom id = graph.edgesFrom id
  edgesTo : ∀ id, stored.edgesTo id = graph.edgesTo id
  slots : graph.slots = stored.arena.ids

theorem Stores.of_same {after : StoredGraph} {next : Graph} (hstores : stored.Stores graph)
    (harena : after.arena = stored.arena) (hids : after.ids = stored.ids)
    (hkeys : after.edges = stored.edges) (hnodes : next.nodes = graph.nodes)
    (hedges : next.edges = graph.edges) (hslots : next.slots = graph.slots) :
    after.Stores next := by
  obtain ⟨arena, ids, edges, names, files, nextId, journal⟩ := after
  obtain ⟨nodes, slots, edges', names', files', nextId', journal'⟩ := next
  subst harena hids hkeys hnodes hedges hslots
  exact ⟨⟨hstores.arena, hstores.ids, hstores.keys, hstores.ids_iff, hstores.keys_iff,
    hstores.ends⟩, hstores.node?, hstores.mem_edges, hstores.edgesFrom, hstores.edgesTo,
    hstores.slots⟩

/-- The stored graph stands for the graph. -/
structure Represents (stored : StoredGraph) (graph : Graph) : Prop extends
    stored.Stores graph where
  names : graph.names = stored.names
  files : graph.files = stored.files
  nextId : graph.nextId = stored.nextId
  journal : graph.journal = stored.journal

theorem represents_empty : empty.Represents .empty where
  arena := Arena.sound_empty
  ids := Table.keyed_empty
  keys := Table.keyed_empty
  ids_iff := by
    intro id place
    exact iff_of_false (fun h => by cases h) fun h => by cases h
  keys_iff := by
    intro key place
    exact iff_of_false (fun h => by cases h) fun h => by cases h
  ends := fun _ _ hlink => by cases hlink
  node? := fun _ => rfl
  mem_edges := by
    intro edge
    refine iff_of_false List.not_mem_nil ?_
    rintro ⟨place, hplace⟩
    cases hplace
  edgesFrom := fun _ => rfl
  edgesTo := fun _ => rfl
  slots := rfl
  names := rfl
  files := rfl
  nextId := rfl
  journal := rfl

/-! ### Reading -/

theorem Stores.contains (hstores : stored.Stores graph) (id : NodeId) :
    stored.contains id = graph.contains id := by
  rw [StoredGraph.contains, Table.contains, Graph.contains, ← hstores.node?, StoredGraph.node?]
  cases hplace : stored.ids.get? id with
  | none => rfl
  | some place =>
    obtain ⟨cell, hcell, -⟩ := hstores.exists_cell hplace
    rw [Option.bind_some, Arena.node?_eq hcell]
    rfl

/-- The node of a live id is at the place where the index leads. -/
theorem Stores.exists_place (hstores : stored.Stores graph) {node : Node}
    (hnode : graph.node? id = some node) : ∃ place cell, stored.ids.get? id = some place ∧
      stored.arena.cells.get? place = some cell ∧ cell.node = node := by
  rw [← hstores.node?, StoredGraph.node?, Option.bind_eq_some_iff] at hnode
  obtain ⟨place, hplace, hnode⟩ := hnode
  obtain ⟨cell, hcell, rfl⟩ := Option.map_eq_some_iff.1 hnode
  exact ⟨place, cell, hplace, hcell, rfl⟩

theorem Stores.ids_eq_none (hstores : stored.Stores graph) (hnode : graph.node? id = none) :
    stored.ids.get? id = none := by
  cases hplace : stored.ids.get? id with
  | none => rfl
  | some place =>
    obtain ⟨cell, hcell, rfl⟩ := hstores.exists_cell hplace
    cases ((hstores.node? _).symm.trans (hstores.node?_eq hcell)).symm.trans hnode

theorem Stores.edge? (hstores : stored.Stores graph) (hkeys : (graph.edges.map Edge.key).Nodup)
    (key : EdgeKey) : stored.edge? key = graph.edge? key := by
  ext edge
  rw [Graph.edge?, find?_key_iff hkeys, hstores.mem_edges, StoredGraph.edge?,
    Option.bind_eq_some_iff]
  constructor
  · rintro ⟨place, hplace, hedge⟩
    obtain ⟨link, hlink, rfl⟩ := hstores.exists_link hplace
    rw [Arena.edge?_eq hlink] at hedge
    exact ⟨⟨place, hedge ▸ Arena.edge?_eq hlink⟩, congrArg Edge.key (Option.some.inj hedge).symm⟩
  · rintro ⟨⟨place, hedge⟩, rfl⟩
    obtain ⟨link, hlink, rfl⟩ := Option.map_eq_some_iff.1 hedge
    exact ⟨place, hstores.place_of_link hlink, hedge⟩

theorem Represents.fileNode? (hrepresents : stored.Represents graph) (path : Path) :
    stored.fileNode? path = graph.fileNode? path := by
  rw [StoredGraph.fileNode?, Graph.fileNode?, hrepresents.files]

theorem Stores.edgesFrom_eq (hstores : stored.Stores graph)
    (hplace : stored.ids.get? id = some place) :
    stored.arena.edgesFrom place = graph.edgesFrom id := by
  rw [← hstores.edgesFrom, StoredGraph.edgesFrom, hplace, Option.elim_some]

theorem Stores.edgesTo_eq (hstores : stored.Stores graph)
    (hplace : stored.ids.get? id = some place) :
    stored.arena.edgesTo place = graph.edgesTo id := by
  rw [← hstores.edgesTo, StoredGraph.edgesTo, hplace, Option.elim_some]

/-- The nodes come in the same order. -/
theorem Stores.nodes (hstores : stored.Stores graph) : stored.arena.nodes = graph.nodesBySlot := by
  rw [Arena.nodes, Graph.nodesBySlot, hstores.slots, Arena.ids, Slots.toList_map,
    List.filterMap_map, ← List.filterMap_eq_map]
  refine List.filterMap_congr fun cell hcell => ?_
  obtain ⟨place, hplace⟩ := Slots.mem_toList_iff.1 hcell
  rw [Function.comp_apply, Function.comp_apply, ← hstores.node?, hstores.node?_eq hplace]

theorem Stores.size_cells (hstores : stored.Stores graph) (hindexed : graph.Indexed) :
    stored.arena.cells.size = graph.nodes.length := by
  have hlength : stored.arena.nodes.length = stored.arena.cells.size := by
    rw [Arena.nodes, List.length_map, Slots.size]
  have hperm : graph.nodesBySlot.Perm graph.nodes :=
    (List.perm_ext_iff_of_nodup (List.Nodup.of_map _ hindexed.nodup_nodesBySlot)
      (List.Nodup.of_map _ hindexed.ids)).2 fun _ => hindexed.mem_nodesBySlot
  rw [← hlength, hstores.nodes, hperm.length_eq]

/-! ### Nodes -/

/-- A node is stored in the next place, under an id that is new. -/
theorem Sound.addNode (hsound : stored.Sound) {node : Node}
    (hunused : stored.ids.get? node.id = none) :
    Sound { stored with
      arena := (stored.arena.addNode node).2
      ids := stored.ids.put node.id (stored.arena.addNode node).1 } := by
  have hids := Table.get?_put stored.ids node.id
  have hold : ∀ {id place}, stored.ids.get? id = some place → id ≠ node.id := by
    rintro id place hplace rfl
    cases hunused.symm.trans hplace
  have hempty : stored.arena.ids.get? stored.arena.cells.next = none := by
    rw [Arena.ids, Slots.get?_map, hsound.arena.cells.get?_next, Option.map_none]
  refine ⟨hsound.arena.addNode node, hsound.ids.put _ _, hsound.keys,
    hsound.ids_iff.put hunused hempty (Arena.get?_ids_addNode hsound.arena.cells node),
    hsound.keys_iff, fun place link hlink => ?_⟩
  obtain ⟨hsource, htarget⟩ := hsound.ends place link hlink
  rw [hids, hids, if_neg (hold hsource), if_neg (hold htarget)]
  exact ⟨hsource, htarget⟩

theorem Stores.addNode (hstores : stored.Stores graph) (node : Node)
    (hfresh : graph.node? node.id = none)
    (hclosed : ∀ edge ∈ graph.edges, edge.source ≠ node.id ∧ edge.target ≠ node.id) :
    Stores { stored with
        arena := (stored.arena.addNode node).2
        ids := stored.ids.put node.id (stored.arena.addNode node).1 }
      { graph with nodes := graph.nodes ++ [node], slots := graph.slots.insert node.id } := by
  have haccounted := hstores.arena.cells
  have hunused := hstores.ids_eq_none hfresh
  have hids := Table.get?_put stored.ids node.id
  have hnone : ∀ stand : Edge → NodeId, (∀ edge ∈ graph.edges, stand edge ≠ node.id) →
      graph.edges.filter (fun edge => stand edge = node.id) = [] := by
    intro stand hstand
    refine List.filter_eq_nil_iff.2 fun edge hedge => ?_
    rw [decide_eq_true_eq]
    exact hstand edge hedge
  refine ⟨hstores.toSound.addNode hunused, fun id => ?_, hstores.mem_edges, fun id => ?_,
    fun id => ?_, ?_⟩
  · have happend : ({ graph with nodes := graph.nodes ++ [node] } : Graph).nodes =
        graph.nodes ++ [node] := rfl
    have hnode := Graph.node?_of_append happend hfresh id
    refine Eq.trans ?_ hnode.symm
    rw [StoredGraph.node?, hids]
    by_cases hid : id = node.id
    · rw [if_pos hid, if_pos hid, Option.bind_some]
      have hcell : (stored.arena.addNode node).2.cells.get? (stored.arena.addNode node).1 =
          some { node } := (haccounted.get?_insert _ _).trans (if_pos rfl)
      exact Arena.node?_eq hcell
    · rw [if_neg hid, if_neg hid, ← hstores.node?, StoredGraph.node?]
      refine Option.bind_congr fun place hplace => ?_
      obtain ⟨cell, hcell, -⟩ := hstores.exists_cell hplace
      rw [Arena.node?, Arena.node?, Arena.addNode, haccounted.get?_insert,
        if_neg (haccounted.ne_next hcell)]
  · have hsame : (stored.arena.addNode node).2.edgesFrom = stored.arena.edgesFrom :=
      funext fun place => Arena.edgesAt_addNode haccounted rfl place
    rw [StoredGraph.edgesFrom, hids, hsame]
    by_cases hid : id = node.id
    · rw [if_pos hid, hid]
      exact (Arena.edgesAt_eq_nil haccounted.get?_next).trans
        (hnone _ fun edge hedge => (hclosed edge hedge).1).symm
    · rw [if_neg hid]
      exact hstores.edgesFrom id
  · have hsame : (stored.arena.addNode node).2.edgesTo = stored.arena.edgesTo :=
      funext fun place => Arena.edgesAt_addNode haccounted rfl place
    rw [StoredGraph.edgesTo, hids, hsame]
    by_cases hid : id = node.id
    · rw [if_pos hid, hid]
      exact (Arena.edgesAt_eq_nil haccounted.get?_next).trans
        (hnone _ fun edge hedge => (hclosed edge hedge).2).symm
    · rw [if_neg hid]
      exact hstores.edgesTo id
  · rw [hstores.slots, Arena.ids_addNode]

/-- A node is replaced in its place by one with its id. -/
theorem Sound.setNode (hsound : stored.Sound) {node : Node}
    (hplace : stored.ids.get? node.id = some place) :
    Sound { stored with arena := stored.arena.setNode place node } := by
  obtain ⟨cell, hcell, hid⟩ := hsound.exists_cell hplace
  have hids : (stored.arena.setNode place node).ids = stored.arena.ids := by
    refine Arena.ids_setNode fun old hold => ?_
    rw [Arena.node?_eq hcell] at hold
    rw [← Option.some.inj hold, hid]
  exact ⟨hsound.arena.setNode place node, hsound.ids, hsound.keys, hids ▸ hsound.ids_iff,
    hsound.keys_iff, hsound.ends⟩

theorem Stores.setNode (hstores : stored.Stores graph) {node : Node}
    (hplace : stored.ids.get? node.id = some place) :
    Stores { stored with arena := stored.arena.setNode place node } (graph.setNode node) := by
  obtain ⟨cell, hcell, hid⟩ := hstores.exists_cell hplace
  have hlive : graph.contains node.id := by
    rw [← hstores.contains, StoredGraph.contains, Table.contains, hplace]
    rfl
  refine ⟨hstores.toSound.setNode hplace, fun id => ?_, hstores.mem_edges, fun id => ?_,
    fun id => ?_, ?_⟩
  · rw [Graph.node?_setNode hlive, ← hstores.node?, StoredGraph.node?, StoredGraph.node?]
    by_cases heq : id = node.id
    · rw [if_pos heq, heq, hplace, Option.bind_some, Arena.node?, Arena.setNode, Slots.get?_modify,
        if_pos rfl, hcell]
      rfl
    · rw [if_neg heq]
      refine Option.bind_congr fun other hother => ?_
      rw [Arena.node?, Arena.setNode, Slots.get?_modify, if_neg, Arena.node?]
      rintro rfl
      exact heq (hstores.id_inj hother hplace)
  · have hsame : (stored.arena.setNode place node).edgesFrom = stored.arena.edgesFrom :=
      funext fun other => Arena.edgesAt_setNode _ _ (fun _ => rfl) other
    rw [StoredGraph.edgesFrom, hsame]
    exact hstores.edgesFrom id
  · have hsame : (stored.arena.setNode place node).edgesTo = stored.arena.edgesTo :=
      funext fun other => Arena.edgesAt_setNode _ _ (fun _ => rfl) other
    rw [StoredGraph.edgesTo, hsame]
    exact hstores.edgesTo id
  · refine hstores.slots.trans (Arena.ids_setNode fun old hold => ?_).symm
    rw [Arena.node?_eq hcell] at hold
    rw [← Option.some.inj hold, hid]

/-! ### Edges -/

/-- On a list of each node are the edges of the graph that have the node at that end. -/
def Lined (stored : StoredGraph) (graph : Graph) (list : Cell → List Nat) (stand : Edge → NodeId) :
    Prop :=
  ∀ id, (stored.ids.get? id).elim [] (stored.arena.edgesAt list) =
    graph.edges.filter fun edge => stand edge = id

theorem Sound.exists_end (hsound : stored.Sound) (hplace : stored.ids.get? id = some place) :
    ∃ cell, stored.arena.cells.get? place = some cell := by
  obtain ⟨cell, hcell, -⟩ := hsound.exists_cell hplace
  exact ⟨cell, hcell⟩

section Lined

variable {list : Cell → List Nat} {stand : Edge → NodeId} {after : StoredGraph} {next : Graph}

theorem Lined.add (hlined : stored.Lined graph list stand) (hsound : stored.Sound) {edge : Edge}
    (hids : after.ids = stored.ids) (hedges : next.edges = edge :: graph.edges)
    (hstand : stored.ids.get? (stand edge) = some place)
    (hlist : ∀ other, after.arena.edgesAt list other =
      if other = place then edge :: stored.arena.edgesAt list other
      else stored.arena.edgesAt list other) : after.Lined next list stand := by
  intro id
  rw [hids, hedges, List.filter_cons, ← hlined id]
  cases hplace : stored.ids.get? id with
  | none =>
    rw [Option.elim_none, Option.elim_none, if_neg]
    intro hid
    rw [← of_decide_eq_true hid, hstand] at hplace
    cases hplace
  | some other =>
    rw [Option.elim_some, Option.elim_some, hlist]
    by_cases hid : stand edge = id
    · subst hid
      rw [if_pos (Option.some.inj (hplace.symm.trans hstand)), if_pos (decide_eq_true rfl)]
    · rw [if_neg, if_neg fun h => hid (of_decide_eq_true h)]
      rintro rfl
      exact hid (hsound.id_inj hstand hplace)

/-- What becomes of single edges of the graph becomes of those on the lists. -/
theorem Lined.filterMap (hlined : stored.Lined graph list stand) (change : Edge → Option Edge)
    (hids : ∀ id, after.ids.get? id = stored.ids.get? id ∨
      after.ids.get? id = none ∧ next.edges.filter (fun edge => stand edge = id) = [])
    (hedges : next.edges = graph.edges.filterMap change)
    (hstand : ∀ edge changed, change edge = some changed → stand changed = stand edge)
    (hlist : ∀ id place, after.ids.get? id = some place →
      after.arena.edgesAt list place = (stored.arena.edgesAt list place).filterMap change) :
    after.Lined next list stand := by
  intro id
  obtain hsame | ⟨hnone, hempty⟩ := hids id
  · have hfilter : next.edges.filter (fun edge => stand edge = id) =
        (graph.edges.filter fun edge => stand edge = id).filterMap change := by
      rw [hedges, List.filter_filterMap, List.filterMap_filter]
      refine List.filterMap_congr fun edge _ => ?_
      cases hchange : change edge with
      | none => simp
      | some changed => simp [hstand edge changed hchange, Option.filter]
    rw [hfilter, ← hlined id, hsame]
    cases hplace : stored.ids.get? id with
    | none => rfl
    | some place => exact hlist id place (hsame.trans hplace)
  · rw [hnone, hempty, Option.elim_none]

/-- Edges that are taken off all lists are those that are gone. -/
theorem Lined.filter (hlined : stored.Lined graph list stand) {pick : Link → Nat}
    (hlists : stored.arena.Lists list pick) {keep : Edge → Bool} {gone : List Nat}
    (hids : ∀ id, after.ids.get? id = stored.ids.get? id ∨
      after.ids.get? id = none ∧ next.edges.filter (fun edge => stand edge = id) = [])
    (hedges : next.edges = graph.edges.filter keep)
    (hlinks : ∀ other, after.arena.links.get? other =
      if other ∈ gone then none else stored.arena.links.get? other)
    (hkeep : ∀ edge link, stored.arena.links.get? edge = some link →
      (keep link.edge = true ↔ edge ∉ gone))
    (hcells : ∀ id place, after.ids.get? id = some place → after.arena.listAt list place =
      (stored.arena.listAt list place).map fun places => places.filter (· ∉ gone)) :
    after.Lined next list stand := by
  refine hlined.filterMap (Option.guard keep) hids ?_ ?_ fun id place hplace => ?_
  · rw [hedges, List.filterMap_eq_filter]
  · intro edge changed hchanged
    rw [(Option.guard_eq_some_iff.1 hchanged).1]
  · rw [List.filterMap_eq_filter]
    exact hlists.edgesAt_filter hlinks hkeep (hcells id place hplace)

end Lined

/-- What is stored is what the graph keeps, where edges go. -/
theorem Stores.mem_edges_filter (hstores : stored.Stores graph) {arena : Arena}
    {keep : Edge → Bool} {gone : List Nat}
    (hlinks : ∀ other, arena.links.get? other =
      if other ∈ gone then none else stored.arena.links.get? other)
    (hkeep : ∀ edge link, stored.arena.links.get? edge = some link →
      (keep link.edge = true ↔ edge ∉ gone)) (edge : Edge) :
    edge ∈ graph.edges.filter keep ↔ ∃ place, arena.edge? place = some edge := by
  rw [List.mem_filter, hstores.mem_edges]
  simp only [Arena.edge?, hlinks]
  constructor
  · rintro ⟨⟨place, hplace⟩, hkept⟩
    obtain ⟨link, hlink, rfl⟩ := Option.map_eq_some_iff.1 hplace
    exact ⟨place, by rw [if_neg ((hkeep place link hlink).1 hkept)]; exact hplace⟩
  · rintro ⟨place, hplace⟩
    split at hplace
    · cases hplace
    · rename_i hnot
      obtain ⟨link, hlink, rfl⟩ := Option.map_eq_some_iff.1 hplace
      exact ⟨⟨place, hplace⟩, (hkeep place link hlink).2 hnot⟩

/-- An edge is stored in the next place, under a key that is new, between live nodes. -/
theorem Sound.addEdge (hsound : stored.Sound) {edge : Edge} {source target : Nat}
    (hunused : stored.edges.get? edge.key = none)
    (hsource : stored.ids.get? edge.source = some source)
    (htarget : stored.ids.get? edge.target = some target) :
    Sound { stored with
      arena := (stored.arena.addEdge source target edge).2
      edges := stored.edges.put edge.key (stored.arena.addEdge source target edge).1 } := by
  have hempty : stored.arena.keys.get? stored.arena.links.next = none := by
    rw [Arena.keys, Slots.get?_map, hsound.arena.links.get?_next, Option.map_none]
  refine ⟨hsound.arena.addEdge edge (hsound.exists_end hsource) (hsound.exists_end htarget),
    hsound.ids, hsound.keys.put _ _, (Arena.ids_addEdge _ _ _ _).symm ▸ hsound.ids_iff,
    hsound.keys_iff.put hunused hempty
      (Arena.get?_keys_addEdge hsound.arena.links source target edge),
    fun place link hlink => ?_⟩
  rw [Arena.links_addEdge hsound.arena.links] at hlink
  split at hlink
  · obtain rfl := Option.some.inj hlink
    exact ⟨hsource, htarget⟩
  · exact hsound.ends place link hlink

/-- Nodes are no different where cells differ in their lists only. -/
theorem Stores.node?_congr (hstores : stored.Stores graph) {arena : Arena}
    (hcells : ∀ place, arena.node? place = stored.arena.node? place) (id : NodeId) :
    (stored.ids.get? id).bind arena.node? = graph.node? id := by
  rw [← hstores.node?, StoredGraph.node?]
  exact Option.bind_congr fun place _ => hcells place

theorem Stores.addEdge (hstores : stored.Stores graph) {edge : Edge} {source target : Nat}
    (hunused : stored.edges.get? edge.key = none)
    (hsource : stored.ids.get? edge.source = some source)
    (htarget : stored.ids.get? edge.target = some target) :
    Stores { stored with
        arena := (stored.arena.addEdge source target edge).2
        edges := stored.edges.put edge.key (stored.arena.addEdge source target edge).1 }
      { graph with edges := edge :: graph.edges } := by
  have hlinks := Arena.links_addEdge hstores.arena.links source target edge
  have hnew := hstores.arena.links.get?_next
  have hfrom := fun place => hstores.arena.leaving.edgesAt_add hnew hlinks
    (Arena.leaving_addEdge stored.arena source target edge place) (hstores.exists_end hsource)
  have hto := fun place => hstores.arena.entering.edgesAt_add hnew hlinks
    (Arena.entering_addEdge stored.arena source target edge place) (hstores.exists_end htarget)
  refine ⟨hstores.toSound.addEdge hunused hsource htarget, fun id => ?_, fun other => ?_,
    Lined.add hstores.edgesFrom hstores.toSound rfl rfl hsource hfrom,
    Lined.add hstores.edgesTo hstores.toSound rfl rfl htarget hto,
    hstores.slots.trans (Arena.ids_addEdge _ _ _ _).symm⟩
  · refine hstores.node?_congr (fun place => ?_) id
    rw [Arena.node?, Arena.cells_addEdge, Option.map_map, Arena.node?]
    rfl
  · rw [List.mem_cons, hstores.mem_edges]
    simp only [Arena.edge?, hlinks]
    constructor
    · rintro (rfl | ⟨place, hplace⟩)
      · exact ⟨stored.arena.links.next, by rw [if_pos rfl]; rfl⟩
      · obtain ⟨link, hlink, -⟩ := Option.map_eq_some_iff.1 hplace
        exact ⟨place, by rw [if_neg (hstores.arena.links.ne_next hlink)]; exact hplace⟩
    · rintro ⟨place, hplace⟩
      split at hplace
      · exact .inl (Option.some.inj hplace).symm
      · exact .inr ⟨place, hplace⟩

/-- An edge is replaced in its place by one with its key. -/
theorem Sound.setEdge (hsound : stored.Sound) {edge : Edge}
    (hplace : stored.edges.get? edge.key = some place) :
    Sound { stored with arena := stored.arena.setEdge place edge } := by
  obtain ⟨link, hlink, hkey⟩ := hsound.exists_link hplace
  have hkeys : (stored.arena.setEdge place edge).keys = stored.arena.keys := by
    refine Arena.keys_setEdge fun old hold => ?_
    rw [Arena.edge?_eq hlink] at hold
    rw [← Option.some.inj hold, hkey]
  refine ⟨hsound.arena.setEdge place edge, hsound.ids, hsound.keys, hsound.ids_iff,
    hkeys ▸ hsound.keys_iff, fun other found hfound => ?_⟩
  rw [Arena.links_setEdge, Option.map_eq_some_iff] at hfound
  obtain ⟨old, hold, rfl⟩ := hfound
  obtain ⟨hsource, htarget⟩ := hsound.ends other old hold
  split
  · rename_i heq
    obtain ⟨hsameSource, hsameTarget, -⟩ :=
      EdgeKey.mk.inj ((hsound.place_eq_iff hold hplace).1 heq)
    exact ⟨hsameSource ▸ hsource, hsameTarget ▸ htarget⟩
  · exact ⟨hsource, htarget⟩

theorem Stores.setEdge (hstores : stored.Stores graph) {edge : Edge}
    (hplace : stored.edges.get? edge.key = some place) :
    Stores { stored with arena := stored.arena.setEdge place edge } (graph.setEdge edge) := by
  have hedge : ∀ other link, stored.arena.links.get? other = some link →
      (stored.arena.setEdge place edge).edge? other =
        some (if link.edge.key = edge.key then edge else link.edge) := by
    intro other link hlink
    rw [Arena.edge?, Arena.links_setEdge, hlink, Option.map_some, Option.map_some]
    by_cases heq : other = place
    · rw [if_pos heq, if_pos ((hstores.place_eq_iff hlink hplace).1 heq)]
    · rw [if_neg heq, if_neg fun hkey => heq ((hstores.place_eq_iff hlink hplace).2 hkey)]
  have hedges : (graph.setEdge edge).edges =
      graph.edges.filterMap fun other => some (if other.key = edge.key then edge else other) :=
    (congrFun List.filterMap_eq_map graph.edges).symm
  have hstand : ∀ stand : Edge → NodeId, (∀ other : Edge, other.key = edge.key →
      stand other = stand edge) → ∀ other changed : Edge,
      some (if other.key = edge.key then edge else other) = some changed →
      stand changed = stand other := by
    intro stand hkeyed other changed hchanged
    rw [← Option.some.inj hchanged]
    split
    · rename_i hkey
      exact (hkeyed other hkey).symm
    · rfl
  refine ⟨hstores.toSound.setEdge hplace, hstores.node?, fun other => ?_,
    Lined.filterMap hstores.edgesFrom _ (fun _ => .inl rfl) hedges
      (hstand _ fun _ hkey => (EdgeKey.mk.inj hkey).1)
      fun _ _ _ => hstores.arena.leaving.edgesAt hedge rfl,
    Lined.filterMap hstores.edgesTo _ (fun _ => .inl rfl) hedges
      (hstand _ fun _ hkey => (EdgeKey.mk.inj hkey).2.1)
      fun _ _ _ => hstores.arena.entering.edgesAt hedge rfl, hstores.slots⟩
  rw [Graph.setEdge, List.mem_map]
  constructor
  · rintro ⟨old, hold, rfl⟩
    obtain ⟨found, hfound⟩ := (hstores.mem_edges old).1 hold
    obtain ⟨link, hlink, rfl⟩ := Option.map_eq_some_iff.1 hfound
    exact ⟨found, hedge found link hlink⟩
  · rintro ⟨found, hfound⟩
    obtain ⟨changed, hchanged, -⟩ := Option.map_eq_some_iff.1 hfound
    rw [Arena.links_setEdge, Option.map_eq_some_iff] at hchanged
    obtain ⟨link, hlink, -⟩ := hchanged
    refine ⟨link.edge, (hstores.mem_edges _).2 ⟨found, Arena.edge?_eq hlink⟩, ?_⟩
    exact Option.some.inj ((hedge found link hlink).symm.trans hfound)

/-- An edge goes out of its place and out of the index. -/
theorem Sound.removeEdge (hsound : stored.Sound) {key : EdgeKey}
    (hplace : stored.edges.get? key = some place) :
    Sound { stored with
      arena := (stored.arena.removeEdge place).2
      edges := stored.edges.erase key } := by
  refine ⟨hsound.arena.removeEdge place, hsound.ids, hsound.keys.erase key,
    (Arena.ids_removeEdge _ _).symm ▸ hsound.ids_iff,
    hsound.keys_iff.erase hplace (Arena.get?_keys_removeEdge stored.arena place),
    fun other link hlink => ?_⟩
  rw [Arena.links_removeEdge] at hlink
  split at hlink
  · cases hlink
  · exact hsound.ends other link hlink

theorem Stores.removeEdge (hstores : stored.Stores graph) {key : EdgeKey}
    (hplace : stored.edges.get? key = some place) :
    Stores { stored with
        arena := (stored.arena.removeEdge place).2
        edges := stored.edges.erase key }
      { graph with edges := graph.edges.filter fun other => other.key ≠ key } := by
  have hlinks : ∀ other, (stored.arena.removeEdge place).2.links.get? other =
      if other ∈ [place] then none else stored.arena.links.get? other := by
    intro other
    rw [Arena.links_removeEdge]
    simp only [List.mem_singleton]
  have hkeep : ∀ other link, stored.arena.links.get? other = some link →
      (decide (link.edge.key ≠ key) = true ↔ other ∉ [place]) := by
    intro other link hlink
    rw [decide_eq_true_eq, List.mem_singleton, hstores.place_eq_iff hlink hplace]
  have hcells := hstores.arena.cells_removeEdge place
  have hunlinked : ∀ list : Cell → List Nat,
      (∀ cell, list (cell.unlink place) = (list cell).filter (· ≠ place)) → ∀ other,
      (stored.arena.removeEdge place).2.listAt list other =
        (stored.arena.listAt list other).map fun places => places.filter (· ∉ [place]) := by
    intro list hlist other
    rw [Arena.listAt, hcells, Arena.listAt, Option.map_map, Option.map_map]
    refine Option.map_congr fun cell _ => (hlist cell).trans ?_
    simp only [List.mem_singleton, Function.comp_apply]
  refine ⟨hstores.toSound.removeEdge hplace, fun id => ?_, hstores.mem_edges_filter hlinks hkeep,
    Lined.filter hstores.edgesFrom hstores.arena.leaving (fun _ => .inl rfl) rfl hlinks hkeep
      fun _ other _ => hunlinked _ (fun _ => rfl) other,
    Lined.filter hstores.edgesTo hstores.arena.entering (fun _ => .inl rfl) rfl hlinks hkeep
      fun _ other _ => hunlinked _ (fun _ => rfl) other,
    hstores.slots.trans (Arena.ids_removeEdge _ _).symm⟩
  refine hstores.node?_congr (fun other => ?_) id
  rw [Arena.node?, hcells, Option.map_map, Arena.node?]
  rfl

end StoredGraph

end CodeGraph
