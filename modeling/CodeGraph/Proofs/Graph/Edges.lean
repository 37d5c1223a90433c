import CodeGraph.Proofs.Except
import CodeGraph.Proofs.Graph.View

/-!
# Edges by their keys

An edge is found under its key, with the evidence it rests on. An edge that is there already is not
inserted again, and a node that stays what it is is not updated: neither is recorded.
-/

namespace CodeGraph

@[simp]
theorem Edge.same_self (edge : Edge) : edge.same edge = true := by
  simp [Edge.same]

@[simp]
theorem Node.same_self (node : Node) : node.same node = true := by
  simp [Node.same, Path.same]

theorem Node.rebind_eq_self {node : Node} {binding : Binding}
    (hbinding : node.binding? = some binding) : node.rebind binding = node := by
  obtain ⟨_, _, _, _, _, _, _, detail⟩ := node
  cases detail with
  | importDecl detail => cases hbinding; rfl
  | file | symbol | external => cases hbinding

/-- An edge of certain evidence, unless it is a reference. -/
def Edge.IsPlain (edge : Edge) : Prop :=
  edge.kind ≠ .references → edge = .structural edge.source edge.target edge.kind

theorem Edge.isPlain_structural (source target : NodeId) (kind : EdgeKind) :
    (Edge.structural source target kind).IsPlain :=
  fun _ => rfl

theorem Edge.isPlain_of_mem_map {α : Type} {items : List α} {source target : α → NodeId}
    {kind : EdgeKind} : ∀ edge ∈ items.map fun item =>
      Edge.structural (source item) (target item) kind, edge.IsPlain := by
  rintro _ hedge
  obtain ⟨_, -, rfl⟩ := List.mem_map.1 hedge
  exact isPlain_structural _ _ _

namespace Graph

variable {graph after : Graph}

theorem Sound.edge?_iff (hsound : graph.Sound) {key : EdgeKey} {edge : Edge} :
    graph.edge? key = some edge ↔ edge ∈ graph.edges ∧ edge.key = key :=
  find?_key_iff hsound.keys

theorem key_of_edge? {key : EdgeKey} {edge : Edge} (hedge : graph.edge? key = some edge) :
    edge.key = key := by
  simpa using List.find?_some hedge

/-- The edge is there, up to the sign of a confidence that is zero. -/
def Shows (graph : Graph) (edge : Edge) : Prop :=
  ∃ old, graph.edge? edge.key = some old ∧ old.same edge = true

theorem Shows.congr {edge : Edge} (hshows : graph.Shows edge)
    (hsame : after.edge? edge.key = graph.edge? edge.key) : after.Shows edge := by
  rw [Shows, hsame]
  exact hshows

/-- Only references rest on anything but certain evidence. -/
def Plain (graph : Graph) : Prop :=
  ∀ edge ∈ graph.edges, edge.IsPlain

theorem Plain.shows (hplain : graph.Plain) {key : EdgeKey} (hedge : graph.hasEdge key)
    (hkind : key.kind ≠ .references) :
    graph.Shows (.structural key.source key.target key.kind) := by
  obtain ⟨old, hold⟩ := Option.isSome_iff_exists.1 hedge
  have hkey := key_of_edge? hold
  have hstructural := hplain old (List.mem_of_find?_eq_some hold)
    (by rwa [show old.kind = key.kind from congrArg EdgeKey.kind hkey])
  have hsource : old.source = key.source := congrArg EdgeKey.source hkey
  have htarget : old.target = key.target := congrArg EdgeKey.target hkey
  have hsame : old.kind = key.kind := congrArg EdgeKey.kind hkey
  rw [hsource, htarget, hsame] at hstructural
  exact ⟨old, hold, hstructural ▸ old.same_self⟩

/-! ### What is there stays as it is -/

/-- An update that changes nothing leaves the graph as it is. -/
theorem update_eq_self (hsound : graph.Sound) {id : NodeId} {node : Node} {change : Node → Node}
    (hnode : graph.node? id = some node) (hchange : changed node change = node) :
    graph.update id change = .ok graph := by
  have hid : ({ change node with id, kind := node.kind } : Node) = node := by
    rw [← id_of_node? hnode]
    exact hchange
  have hset : graph.setNode node = graph := by
    have hnodes : (graph.nodes.map fun old => if old.id = node.id then node else old) =
        graph.nodes := by
      refine (List.map_congr_left fun old hold => ?_).trans (List.map_id graph.nodes)
      split
      · rename_i hsame
        have hfound := hsound.node?_iff.2 ⟨hold, hsame.trans (id_of_node? hnode)⟩
        exact Option.some.inj (hnode.symm.trans hfound)
      · rfl
    rw [setNode, hnodes]
  rw [update, updateNode, hnode]
  simp only [hid, hset, Node.same_self, if_true]

/-- An edge that is there is not inserted again. -/
theorem insertEdge_eq_self (hsound : graph.Sound) {edge : Edge} (hshows : graph.Shows edge) :
    graph.insertEdge edge = .ok (false, graph) := by
  obtain ⟨old, hold, hsame⟩ := hshows
  have hkey := key_of_edge? hold
  have hlive := hsound.closed old (List.mem_of_find?_eq_some hold)
  have hsource : old.source = edge.source := congrArg EdgeKey.source hkey
  have htarget : old.target = edge.target := congrArg EdgeKey.target hkey
  rw [hsource, htarget] at hlive
  rw [insertEdge, if_neg (by simp [hlive]), hold]
  simp only [hsame, if_true]

theorem insertEdges_eq_self (hsound : graph.Sound) {edges : List Edge}
    (hshows : ∀ edge ∈ edges, graph.Shows edge) : graph.insertEdges edges = .ok graph :=
  foldlM_eq_self fun edge hedge => by rw [insertEdge_eq_self hsound (hshows edge hedge)]; rfl

/-! ### What is written -/

theorem edge?_removeEdge (graph : Graph) (key other : EdgeKey) :
    (graph.removeEdge key).2.edge? other = if other = key then none else graph.edge? other := by
  rw [removeEdge]
  split
  · rename_i hnone
    split
    · rename_i heq
      rw [heq, hnone]
    · rfl
  · have hedges : (graph.edges.filter fun edge => edge.key ≠ key).find?
        (fun edge => edge.key = other) = if other = key then none else graph.edge? other := by
      split
      · rename_i heq
        rw [List.find?_eq_none]
        intro edge hedge
        have hne := (List.mem_filter.1 hedge).2
        simpa [heq] using hne
      · rename_i hne
        rw [List.find?_filter, edge?]
        congr 1
        funext edge
        by_cases hkey : edge.key = other
        · simp [hkey, hne]
        · simp [hkey]
    exact hedges

theorem edge?_removeEdges (graph : Graph) (keys : List EdgeKey) (other : EdgeKey) :
    (graph.removeEdges keys).edge? other = if other ∈ keys then none else graph.edge? other := by
  induction keys generalizing graph with
  | nil => simp [removeEdges]
  | cons key rest ih =>
    have hrest := ih (graph.removeEdge key).2
    rw [removeEdges] at hrest
    rw [removeEdges, List.foldl_cons, hrest, edge?_removeEdge]
    by_cases hkey : other = key
    · simp [hkey]
    · simp [hkey]

theorem edge?_setEdge {edge old : Edge} (hold : graph.edge? edge.key = some old)
    (other : EdgeKey) : (graph.setEdge edge).edge? other =
      if other = edge.key then some edge else graph.edge? other := by
  rw [edge?] at hold
  rw [edge?, setEdge, List.find?_map, edge?]
  split
  · rename_i heq
    have hsame : ((fun found : Edge => decide (found.key = other)) ∘
        fun found => if found.key = edge.key then edge else found) =
        fun found => decide (found.key = edge.key) := by
      funext found
      by_cases hfound : found.key = edge.key <;> simp [hfound, heq]
    have hkey : old.key = edge.key := by simpa using List.find?_some hold
    rw [hsame, hold, Option.map_some, if_pos hkey]
  · rename_i hne
    have hsame : ((fun found : Edge => decide (found.key = other)) ∘
        fun found => if found.key = edge.key then edge else found) =
        fun found => decide (found.key = other) := by
      funext found
      by_cases hfound : found.key = edge.key
      · simp [hfound, Ne.symm hne]
      · simp [hfound]
    rw [hsame]
    cases hfound : graph.edges.find? fun found => found.key = other with
    | none => rfl
    | some found =>
      have hkey : found.key = other := by simpa using List.find?_some hfound
      rw [Option.map_some, if_neg (hkey ▸ hne)]

theorem shows_insertEdge {edge : Edge} {changed : Bool}
    (hinsert : graph.insertEdge edge = .ok (changed, after)) : after.Shows edge ∧
      ∀ other, other ≠ edge.key → after.edge? other = graph.edge? other := by
  cases (withEdge_insertEdge hinsert).2 with
  | kept hold hsame => exact ⟨⟨_, hold, hsame⟩, fun _ _ => rfl⟩
  | replaced hold =>
    have hfind := edge?_setEdge hold
    exact ⟨⟨edge, (hfind edge.key).trans (if_pos rfl), edge.same_self⟩,
      fun other hother => (hfind other).trans (if_neg hother)⟩
  | added =>
    refine ⟨⟨edge, ?_, edge.same_self⟩, fun other hother => ?_⟩
    · exact List.find?_cons_of_pos (by simp)
    · exact List.find?_cons_of_neg (by simpa using Ne.symm hother)

/-- Edges with different keys are all there once they were inserted, and no other key is touched. -/
theorem shows_insertEdges {edges : List Edge} (hkeys : (edges.map Edge.key).Nodup)
    (hinsert : graph.insertEdges edges = .ok after) : (∀ edge ∈ edges, after.Shows edge) ∧
      ∀ other, other ∉ edges.map Edge.key → after.edge? other = graph.edge? other := by
  induction edges generalizing graph with
  | nil => exact ⟨nofun, fun _ _ => by rw [Except.ok.inj hinsert]⟩
  | cons edge rest ih =>
    obtain ⟨hedge, hrest⟩ := List.nodup_cons.1 hkeys
    rw [insertEdges, List.foldlM_cons] at hinsert
    obtain ⟨middle, hfirst, hlast⟩ := exists_of_bind_eq_ok hinsert
    obtain ⟨⟨changed, next⟩, hone, hnext⟩ := exists_of_bind_eq_ok hfirst
    obtain rfl := Except.ok.inj hnext
    obtain ⟨hshows, hothers⟩ := shows_insertEdge hone
    obtain ⟨hshown, hkept⟩ := ih hrest hlast
    refine ⟨fun other hother => ?_, fun other hother => ?_⟩
    · obtain rfl | hother := List.mem_cons.1 hother
      · exact hshows.congr (hkept _ hedge)
      · exact hshown other hother
    · rw [List.map_cons, List.mem_cons, not_or] at hother
      rw [hkept other hother.2, hothers other hother.1]

end Graph

end CodeGraph
