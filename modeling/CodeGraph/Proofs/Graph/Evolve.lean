import CodeGraph.Proofs.Except
import CodeGraph.Proofs.Graph.Edges
import CodeGraph.Proofs.Graph.Removal

/-!
# How a graph evolves

Whatever a pass does to a graph, it does in small steps: a node or an edge is inserted, a node updated,
an edge removed, a node discarded. What each of them keeps, every operation keeps. The edges that may
be inserted are named, so of the others it is known that they were there before.
-/

namespace CodeGraph

namespace Graph

variable {graph after : Graph} {inserted : Edge → Prop}

/-- One small step, which succeeded. -/
inductive Step (inserted : Edge → Prop) (before : Graph) : Graph → Prop
  | insertNode {node : Node} {id : NodeId} {after : Graph}
    (hinsert : before.insertNode node = .ok (id, after)) : Step inserted before after
  | updateNode {id : NodeId} {change : Node → Node} {changed : Bool} {after : Graph}
    (hupdate : before.updateNode id change = (after, .ok changed)) : Step inserted before after
  | insertEdge {edge : Edge} {changed : Bool} {after : Graph} (hedge : inserted edge)
    (hinsert : before.insertEdge edge = .ok (changed, after)) : Step inserted before after
  | removeEdge (key : EdgeKey) : Step inserted before (before.removeEdge key).2
  | discard {node : Node} (hnode : before.node? node.id = some node) :
    Step inserted before (before.discard node)

/-- Any number of small steps. -/
def Evolves (inserted : Edge → Prop) : Graph → Graph → Prop :=
  Relation.ReflTransGen (Step inserted)

theorem Evolves.refl (graph : Graph) : Evolves inserted graph graph :=
  Relation.ReflTransGen.refl

theorem Evolves.trans {first second third : Graph} (hfirst : Evolves inserted first second)
    (hsecond : Evolves inserted second third) : Evolves inserted first third :=
  Relation.ReflTransGen.trans hfirst hsecond

theorem Step.evolves (hstep : graph.Step inserted after) : Evolves inserted graph after :=
  Relation.ReflTransGen.single hstep

/-! ### Nodes and edges -/

theorem evolves_update {id : NodeId} {change : Node → Node}
    (hupdate : graph.update id change = .ok after) : Evolves inserted graph after := by
  rw [update] at hupdate
  split at hupdate
  · rename_i hresult
    exact Except.ok.inj hupdate ▸ (Step.updateNode hresult).evolves
  · cases hupdate

/-- A change that keeps the path of a node is not refused. -/
theorem evolves_modifyNode (graph : Graph) (id : NodeId) {change : Node → Node}
    (hpath : ∀ node, (change node).path = node.path) :
    Evolves inserted graph (graph.modifyNode id change) := by
  have hresult : ∃ outcome, graph.updateNode id change = (graph.modifyNode id change, outcome) ∧
      (graph.modifyNode id change = graph ∨ ∃ changed, outcome = .ok changed) := by
    refine ⟨(graph.updateNode id change).2, rfl, ?_⟩
    rw [modifyNode, updateNode]
    split
    · exact .inl rfl
    · rename_i before hbefore
      have hsame : before.path.same (change before).path = true := by
        rw [hpath, Path.same, decide_eq_true_eq]
      simp only
      split
      · exact .inr ⟨_, rfl⟩
      · rw [if_neg fun h => h.2 hsame]
        exact .inr ⟨_, rfl⟩
  obtain ⟨outcome, hupdate, hsame | ⟨changed, rfl⟩⟩ := hresult
  · rw [hsame]
    exact .refl graph
  · exact (Step.updateNode hupdate).evolves

theorem evolves_insertEdges {edges : List Edge} (hedges : ∀ edge ∈ edges, inserted edge)
    (hinsert : graph.insertEdges edges = .ok after) : Evolves inserted graph after := by
  refine rel_of_foldlM_eq_ok (Evolves inserted) .refl .trans
    (fun edge hedge state next hstep => ?_) hinsert
  obtain ⟨⟨changed, last⟩, hone, hnext⟩ := exists_of_bind_eq_ok hstep
  obtain rfl := Except.ok.inj hnext
  exact (Step.insertEdge (hedges edge hedge) hone).evolves

theorem evolves_removeEdges (graph : Graph) (keys : List EdgeKey) :
    Evolves inserted graph (graph.removeEdges keys) :=
  List.foldlRecOn (motive := Evolves inserted graph) keys _ (.refl graph)
    fun _ hstate key _ => hstate.trans (Step.removeEdge key).evolves

/-! ### Removal -/

theorem evolves_unbind (graph : Graph) (node : Node) :
    Evolves inserted graph (graph.unbind node) :=
  List.foldlRecOn (motive := Evolves inserted graph) _ _ (.refl graph) fun state hstate id _ =>
    hstate.trans (evolves_modifyNode state id fun _ => Node.path_rebind _ _)

theorem evolves_unlist {node : Node} (hunlist : graph.unlist node = (after, .ok ())) :
    Evolves inserted graph after := by
  rw [unlist] at hunlist
  split at hunlist
  · exact (Prod.mk.inj hunlist).1 ▸ .refl graph
  · split at hunlist
    · exact (Prod.mk.inj hunlist).1 ▸ .refl graph
    · generalize hresult : graph.updateNode _ _ = result at hunlist
      obtain ⟨next, outcome⟩ := result
      cases outcome with
      | error error => cases (Prod.mk.inj hunlist).2
      | ok changed => exact (Prod.mk.inj hunlist).1 ▸ (Step.updateNode hresult).evolves

theorem evolves_removeLast {node last : Node}
    (hremove : graph.removeLast node = (after, .ok last)) : Evolves inserted graph after := by
  rw [removeLast] at hremove
  split at hremove
  · cases (Prod.mk.inj hremove).2
  · rename_i unlisted hunlisted
    split at hremove
    · cases (Prod.mk.inj hremove).2
    · rename_i found hfound
      have hid := id_of_node? hfound
      have hdiscard : Evolves inserted unlisted (unlisted.discard found) :=
        (Step.discard (hid ▸ hfound)).evolves
      rw [← (Prod.mk.inj hremove).1]
      exact ((evolves_unbind graph node).trans (evolves_unlist hunlisted)).trans hdiscard

theorem evolves_removeEach {removal : Graph → NodeId → Graph × Except GraphError Node}
    (hremoval : ∀ (graph after : Graph) (id : NodeId) (node : Node),
      removal graph id = (after, .ok node) → Evolves inserted graph after)
    {ids : List NodeId} (hremove : removeEach removal ids graph = (after, .ok ())) :
    Evolves inserted graph after := by
  induction ids generalizing graph with
  | nil => exact (Prod.mk.inj hremove).1 ▸ .refl graph
  | cons id ids ih =>
    rw [removeEach] at hremove
    split at hremove
    · split at hremove
      · rename_i next node hnext
        exact (hremoval graph next id node hnext).trans (ih hremove)
      · cases (Prod.mk.inj hremove).2
    · exact ih hremove

theorem evolves_removeWithin {depth : Nat} {id : NodeId} {last : Node}
    (hremove : removeWithin depth graph id = (after, .ok last)) :
    Evolves inserted graph after := by
  induction depth generalizing graph after id last with
  | zero => cases (Prod.mk.inj hremove).2
  | succ depth ih =>
    rw [removeWithin] at hremove
    split at hremove
    · cases (Prod.mk.inj hremove).2
    · split at hremove
      · cases (Prod.mk.inj hremove).2
      · rename_i cleared howned
        exact (evolves_removeEach (fun _ _ _ _ => ih) howned).trans (evolves_removeLast hremove)

theorem evolves_remove {id : NodeId} (hremove : graph.remove id = .ok after) :
    Evolves inserted graph after := by
  rw [remove, removeNode] at hremove
  split at hremove
  · rename_i hresult
    exact Except.ok.inj hremove ▸ evolves_removeWithin hresult
  · cases hremove

/-! ### Edges -/

theorem Step.mem_edges (hstep : graph.Step inserted after) :
    ∀ edge ∈ after.edges, edge ∈ graph.edges ∨ inserted edge := by
  intro edge hedge
  cases hstep with
  | insertNode hinsert =>
    rw [(appended_insertNode hinsert).2.edges] at hedge
    exact .inl hedge
  | @updateNode id change changed _ hupdate =>
    have hedges := edges_updateNode graph id change
    rw [hupdate] at hedges
    exact .inl (hedges ▸ hedge)
  | @insertEdge new changed _ hnew hinsert =>
    cases (withEdge_insertEdge hinsert).2 with
    | kept => exact .inl hedge
    | replaced =>
      obtain ⟨old, hold, rfl⟩ := List.mem_map.1 hedge
      split
      · exact .inr hnew
      · exact .inl hold
    | added =>
      obtain rfl | hold := List.mem_cons.1 hedge
      · exact .inr hnew
      · exact .inl hold
  | removeEdge key =>
    rw [edges_removeEdge] at hedge
    exact .inl (List.mem_filter.1 hedge).1
  | discard hnode => exact .inl (List.mem_filter.1 hedge).1

/-- **The edges of a graph that evolved were there before or were inserted.** -/
theorem Evolves.mem_edges (hevolves : Evolves inserted graph after) :
    ∀ edge ∈ after.edges, edge ∈ graph.edges ∨ inserted edge := by
  induction hevolves with
  | refl => exact fun edge hedge => .inl hedge
  | tail _ hstep ih =>
    exact fun edge hedge => (hstep.mem_edges edge hedge).elim (ih edge) .inr

/-- When nothing is inserted, an edge that stays is as it was. -/
theorem Evolves.edge?_eq (hevolves : Evolves (fun _ => False) graph after) (hsound : graph.Sound)
    (hsoundAfter : after.Sound) {key : EdgeKey}
    (hkey : after.hasEdge key ↔ graph.hasEdge key) : after.edge? key = graph.edge? key := by
  cases hold : after.edge? key with
  | none =>
    have habsent : ¬ graph.hasEdge key := by rw [← hkey, hasEdge, hold]; simp
    exact (Option.not_isSome_iff_eq_none.1 habsent).symm
  | some edge =>
    obtain ⟨hedge, hsame⟩ := hsoundAfter.edge?_iff.1 hold
    exact (hsound.edge?_iff.2 ⟨(hevolves.mem_edges edge hedge).resolve_right id, hsame⟩).symm

/-- Guesses are references, whatever happens. -/
theorem Evolves.plain (hevolves : Evolves Edge.IsPlain graph after) (hplain : graph.Plain) :
    after.Plain :=
  fun edge hedge => (hevolves.mem_edges edge hedge).elim (hplain edge) id

end Graph

end CodeGraph
