import CodeGraph.Proofs.Graph.Evolve

/-!
# The age of nodes

Ids are given out once. Whatever is done to a graph, a node that is in it afterwards was there before,
as a node of the same kind, or got its id meanwhile; so an id that is gone never comes back.
-/

namespace CodeGraph.Graph

/-- A graph that grew older: each of its nodes was there before, in the same kind, or is new. -/
structure Ages (before after : Graph) : Prop where
  nextId : before.nextId ≤ after.nextId
  kept : ∀ id node, after.node? id = some node → before.nextId ≤ id ∨
    ∃ old, before.node? id = some old ∧ old.kind = node.kind

theorem Ages.of_nodes {before after : Graph} (hnext : after.nextId = before.nextId)
    (hnodes : after.nodes = before.nodes) : before.Ages after :=
  ⟨hnext.ge, fun _ node hnode => .inr ⟨node, by rwa [node?, ← hnodes], rfl⟩⟩

theorem Ages.refl (graph : Graph) : graph.Ages graph :=
  .of_nodes rfl rfl

theorem Ages.trans {first second third : Graph} (hfirst : first.Ages second)
    (hsecond : second.Ages third) : first.Ages third where
  nextId := hfirst.nextId.trans hsecond.nextId
  kept id node hnode := by
    obtain hnew | ⟨middle, hmiddle, hkind⟩ := hsecond.kept id node hnode
    · exact .inl (hfirst.nextId.trans hnew)
    · refine (hfirst.kept id middle hmiddle).imp_right ?_
      rintro ⟨old, hold, hkind'⟩
      exact ⟨old, hold, hkind'.trans hkind⟩

variable {graph after : Graph} {inserted : Edge → Prop}

/-! ### Steps -/

theorem ages_insertNode {node : Node} {id : NodeId}
    (hinsert : graph.insertNode node = .ok (id, after)) : graph.Ages after := by
  obtain ⟨-, happended⟩ := appended_insertNode hinsert
  refine ⟨happended.nextId ▸ Nat.le_succ _, fun other found hfound => ?_⟩
  rw [node?, happended.nodes, List.find?_append, Option.or_eq_some_iff] at hfound
  obtain hold | ⟨-, hnew⟩ := hfound
  · exact .inr ⟨found, hold, rfl⟩
  · have hid := List.find?_some hnew
    obtain rfl := List.mem_singleton.1 (List.mem_of_find?_eq_some hnew)
    exact .inl (of_decide_eq_true hid).le

theorem ages_setNode {node old : Node} (hold : graph.node? node.id = some old)
    (hkind : old.kind = node.kind) : graph.Ages (graph.setNode node) := by
  refine ⟨le_rfl, fun id found hfound => .inr ?_⟩
  rw [node?_setNode (contains_of_node? hold)] at hfound
  split at hfound
  · rename_i hid
    obtain rfl := Option.some.inj hfound
    exact ⟨old, hid ▸ hold, hkind⟩
  · exact ⟨found, hfound, rfl⟩

/-- An update changes at most one node, which keeps its id and its kind. -/
theorem ages_updateNode (graph : Graph) (id : NodeId) (change : Node → Node) :
    graph.Ages (graph.updateNode id change).1 := by
  cases hbefore : graph.node? id with
  | none =>
    rw [updateNode, hbefore]
    exact .refl graph
  | some before =>
    have hretouched := retouched_updateNode hbefore change
    have hold : graph.node? (changed before change).id = some before :=
      (congrArg graph.node? (id_of_node? hbefore)).trans hbefore
    have hset : graph.Ages (graph.setNode (changed before change)) := ages_setNode hold rfl
    exact hset.trans (.of_nodes hretouched.nextId hretouched.nodes)

theorem ages_insertEdge {edge : Edge} {changed : Bool}
    (hinsert : graph.insertEdge edge = .ok (changed, after)) : graph.Ages after :=
  have hsame := sameNodes_insertEdge hinsert
  .of_nodes hsame.nextId hsame.nodes

theorem ages_removeEdge (graph : Graph) (key : EdgeKey) :
    graph.Ages (graph.removeEdge key).2 :=
  have hsame := sameNodes_removeEdge graph key
  .of_nodes hsame.nextId hsame.nodes

theorem ages_discard (graph : Graph) (node : Node) : graph.Ages (graph.discard node) := by
  refine ⟨le_rfl, fun id found hfound => .inr ⟨found, ?_, rfl⟩⟩
  rw [node?_discard] at hfound
  split at hfound
  · cases hfound
  · exact hfound

theorem Step.ages (hstep : graph.Step inserted after) : graph.Ages after := by
  cases hstep with
  | insertNode hinsert => exact ages_insertNode hinsert
  | @updateNode id change changed _ hupdate =>
    have hages := ages_updateNode graph id change
    rwa [hupdate] at hages
  | insertEdge _ hinsert => exact ages_insertEdge hinsert
  | removeEdge key => exact ages_removeEdge graph key
  | @discard node _ => exact ages_discard graph node

/-- **A graph that evolves grows older.** -/
theorem Evolves.ages (hevolves : Evolves inserted graph after) : graph.Ages after := by
  induction hevolves with
  | refl => exact .refl graph
  | tail _ hstep ih => exact ih.trans hstep.ages

end CodeGraph.Graph
