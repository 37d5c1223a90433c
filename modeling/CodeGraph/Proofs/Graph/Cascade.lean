import CodeGraph.Proofs.Graph.Session

/-!
# Removals where nothing owns itself

A removal goes down from a node to all that it owns. It comes to an end wherever no node owns itself,
directly or not: a node then owns more nodes than any of those it owns, which is a rank that ownership
goes down along. A removal that has come to an end is the same however much deeper it might have gone.
-/

namespace CodeGraph.Graph

variable {graph after : Graph} {id : NodeId} {last : Node}

/-! ### Depth -/

theorem removeEach_of_le {first second : Graph → NodeId → Graph × Except GraphError Node}
    (hle : ∀ graph after id last, first graph id = (after, .ok last) →
      second graph id = (after, .ok last))
    {ids : List NodeId} (hrun : removeEach first ids graph = (after, .ok ())) :
    removeEach second ids graph = (after, .ok ()) := by
  induction ids generalizing graph with
  | nil => exact hrun
  | cons next rest ih =>
    rw [removeEach] at hrun ⊢
    split at hrun
    · rename_i hlive
      rw [if_pos hlive]
      split at hrun
      · rename_i middle removed hfirst
        rw [hle _ _ _ _ hfirst]
        exact ih hrun
      · cases (Prod.mk.inj hrun).2
    · rename_i hdead
      rw [if_neg hdead]
      exact ih hrun

/-- A removal that may go deeper does the same. -/
theorem removeWithin_of_le {depth more : Nat} (hle : depth ≤ more)
    (hrun : removeWithin depth graph id = (after, .ok last)) :
    removeWithin more graph id = (after, .ok last) := by
  induction depth generalizing graph after id last more with
  | zero => cases (Prod.mk.inj hrun).2
  | succ depth ih =>
    obtain ⟨more, rfl⟩ : ∃ next, more = next + 1 := ⟨more - 1, by omega⟩
    rw [removeWithin] at hrun ⊢
    split at hrun
    · cases (Prod.mk.inj hrun).2
    · rename_i node hnode
      split at hrun
      · cases (Prod.mk.inj hrun).2
      · rename_i middle howned
        have hdeeper : removeEach (removeWithin more) (graph.owned node) graph = (middle, .ok ()) :=
          removeEach_of_le (fun _ _ _ _ => ih (Nat.le_of_succ_le_succ hle)) howned
        simp only [hdeeper]
        exact hrun

/-! ### Rank -/

open Classical in
/-- How many nodes a node owns, directly or not. -/
noncomputable def holdings (graph : Graph) (id : NodeId) : Nat :=
  ((graph.nodes.map Node.id).filter fun other => Relation.TransGen graph.Owns id other).length

theorem holdings_lt (hacyclic : ∀ id, ¬ Relation.TransGen graph.Owns id id) {owner : NodeId}
    (howns : graph.Owns owner id) : graph.holdings id < graph.holdings owner := by
  classical
  have hlive : graph.contains id := howns.choose_spec.2.2
  refine length_filter_lt (fun other hother => ?_) (mem_ids_of_contains hlive)
    (decide_eq_true (.single howns)) (decide_eq_false (hacyclic id))
  exact decide_eq_true (.head howns (of_decide_eq_true hother))

theorem descends_holdings (hacyclic : ∀ id, ¬ Relation.TransGen graph.Owns id id) (root : NodeId) :
    graph.Descends graph.holdings root :=
  fun _ _ _ howns => holdings_lt hacyclic howns

/-- **A removal takes a node with all that it owns, and leaves the rest as it was.** Where no node
owns itself it succeeds, and the number of nodes is depth enough. -/
theorem removeNode_exact (hsound : graph.Sound)
    (hacyclic : ∀ id, ¬ Relation.TransGen graph.Owns id id) (hlive : graph.contains id) :
    ∃ last after, graph.removeNode id = (after, .ok last) ∧
      (∀ depth, graph.nodes.length ≤ depth → removeWithin depth graph id = (after, .ok last)) ∧
      graph.Without (graph.Reaches id) after := by
  obtain ⟨last, after, hrun, hwithout⟩ := removes_removeNode graph.holdings graph id hsound hlive
    (descends_holdings hacyclic id) trivial
  exact ⟨last, after, hrun, fun depth hdepth => removeWithin_of_le hdepth hrun, hwithout⟩

/-- A class with a method, and an import in another file that stands for the class. -/
def imported : Graph :=
  let symbol (kind : NodeKind) (name qualified : String) (parent : Option NodeId) : Node :=
    ⟨0, kind, some name, qualified, ⟨"a.py"⟩, default, .python, .symbol parent true⟩
  let detail : ImportDetail := ⟨"a", some "C", none, false, .resolved 3⟩
  (Session.performAll respond { graph := .empty } <| List.map .ask [
    .insertNode (emptyFile "a.py"), .insertNode (emptyFile "b.py"),
    .insertNode (symbol .classDef "C" "C" none), .insertNode (symbol .functionDef "m" "C.m" (some 3)),
    .insertNode ⟨0, .importDecl, some "C", "a.C", ⟨"b.py"⟩, default, .python, .importDecl detail⟩,
    .updateNode 1 (fun file => { file with detail := .file [3, 4] [] [] }),
    .updateNode 2 (fun file => { file with detail := .file [] [5] [] }),
    .insertEdge (.structural 3 4 .contains), .insertEdge (.structural 5 3 .imports)]).graph

theorem sound_imported : imported.Sound :=
  ((Session.all_new sound_empty).performAll_of_unrefused (fun _ _ hsound => hsound.respond)
    (by decide +kernel)).1

/-- What a node of this graph owns came after it. -/
theorem acyclic_imported : ∀ id, ¬ Relation.TransGen imported.Owns id id := by
  have hlater : ∀ owner id, imported.Owns owner id → owner < id := by
    rintro owner id ⟨node, hnode, hmem, -⟩
    have hall : ∀ node ∈ imported.nodes, ∀ id ∈ imported.owned node, node.id < id := by
      decide +kernel
    exact id_of_node? hnode ▸ hall node (mem_nodes_of_node? hnode) id hmem
  intro id hcycle
  have hlt : id < id := Relation.TransGen.trans_induction_on
    (motive := fun {owner id} _ => owner < id) hcycle (fun howns => hlater _ _ howns)
    fun _ _ => Nat.lt_trans
  exact Nat.lt_irrefl id hlt

theorem removeNode_exact_imported : imported.Sound ∧
    (∀ id, ¬ Relation.TransGen imported.Owns id id) ∧ imported.contains 3 ∧
      ∃ last after, imported.removeNode 3 = (after, .ok last) ∧
        imported.Without (imported.Reaches 3) after := by
  obtain ⟨last, after, hrun, -, hwithout⟩ :=
    removeNode_exact sound_imported acyclic_imported (by decide +kernel : imported.contains 3)
  exact ⟨sound_imported, acyclic_imported, by decide +kernel, last, after, hrun, hwithout⟩

/-- The import stands for nothing, and the file lists nothing. -/
example : let after := (imported.removeNode 3).1
    (after.nodes.map Node.id) = [1, 2, 5] ∧ after.edges = [] ∧
      (after.node? 1).map Node.listed = some [] ∧
      (after.node? 5).bind Node.binding? = some (.unresolved "C was removed") := by
  decide +kernel

end CodeGraph.Graph
