import CodeGraph.Proofs.Graph.Journal
import CodeGraph.Proofs.Transaction.Evolve
import CodeGraph.Proofs.Transaction.Reachable

/-!
# What a commit says has changed

A pass begins with an empty journal and ends with what the journal holds, so the record of a commit
accounts for every difference between the graphs before and after. Between passes every path is in its
one spelling, and what is left unnamed is not only alike but the same.
-/

namespace CodeGraph

/-- Between passes the nodes carry the paths of their files, in the one spelling. -/
theorem Workspace.Stands.tidied_eq {environment : Environment} {stale pending : Path → Prop}
    {workspace : Workspace} (hstands : workspace.Stands environment stale pending) {id : NodeId}
    {node : Node} (hnode : workspace.graph.node? id = some node) : node.tidied = node := by
  refine Path.IsPlain.tidied_eq ?_
  by_cases hkind : node.kind = .external
  · obtain ⟨language, name, hid⟩ := hstands.registered.covered id node hnode hkind
    rw [(hstands.registered.shown language name id).1 hid] at hnode
    exact Option.some.inj hnode ▸ ⟨[], nofun, rfl⟩
  · obtain ⟨file, hfile, hid⟩ := hstands.covered id node hnode hkind
    obtain ⟨found, hfound, hpath, -⟩ := hstands.exists_node hfile hid
    obtain rfl := Option.some.inj (hnode.symm.trans hfound)
    exact hpath ▸ (hstands.ordered.normal file hfile).isPlain

theorem Workspace.Sound.node?_eq {environment : Environment} {before after : Workspace}
    (hbefore : before.Sound environment) (hafter : after.Sound environment) {id : NodeId}
    (halike : before.graph.AlikeAt after.graph id) :
    after.graph.node? id = before.graph.node? id := by
  have hself : ∀ {workspace : Workspace}, workspace.Sound environment →
      (workspace.graph.node? id).map Node.tidied = workspace.graph.node? id := by
    intro workspace hsound
    cases hnode : workspace.graph.node? id with
    | none => rfl
    | some node => rw [Option.map_some, hsound.tidied_eq hnode]
  rw [← hself hafter, ← hself hbefore]
  exact halike.node

/-- The record of a run accounts for every difference between the graphs. -/
theorem Change.alikeAt_run {environment : Environment} {workspace : Workspace} {change : Change}
    {outcome : Pass.Outcome} (hrun : change.run environment workspace = .ok outcome) {id : NodeId}
    (hid : id ∉ outcome.delta.changedNodes) :
    workspace.graph.AlikeAt outcome.workspace.graph id := by
  obtain ⟨pass, hsteps, hconverge⟩ := exists_of_bind_eq_ok hrun
  obtain ⟨-, -, -, last, hevolves, htake⟩ := Pass.evolves_converge hconverge
  obtain ⟨entry, hrecords⟩ := ((evolves_steps hsteps).trans hevolves).records
  obtain ⟨hdelta, hgraph⟩ := Prod.mk.inj htake
  have hjournal : last.journal = some entry := hrecords.journal
  rw [← hdelta, hjournal] at hid
  obtain ⟨hnode, hedges⟩ := hrecords.alike id hid
  exact hgraph ▸ ⟨hnode, hedges⟩

namespace Store

variable {environment : Environment} {store next : Store}

/-- **A commit names every difference.** A node that it does not name is there before and after or
neither, with the same content and the same edges, and a commit without mutations leaves the nodes and
the edges as they were. -/
theorem changes_recorded (hreachable : store.Reachable environment) {queuedAt : Nat}
    {change : Change} {commit : Commit}
    (hcommitted : store.process environment queuedAt change = (next, .committed commit)) :
    (∀ id, id ∉ commit.changed →
      next.workspace.graph.node? id = store.workspace.graph.node? id ∧
      ∀ edge : Edge, edge.touches id = true →
        (edge ∈ next.workspace.graph.edges ↔ edge ∈ store.workspace.graph.edges)) ∧
    (commit.mutations = 0 →
      (∀ id, next.workspace.graph.node? id = store.workspace.graph.node? id) ∧
      ∀ edge, edge ∈ next.workspace.graph.edges ↔ edge ∈ store.workspace.graph.edges) := by
  obtain ⟨checked, outcome, hvalid, hrun, hworkspace, rfl, -⟩ :=
    exists_outcome_of_committed hcommitted
  have hsound := hreachable.kept.sound
  have hsoundNext : next.workspace.Sound environment := by
    have hkept := kept_process hreachable.kept queuedAt change
    rw [hcommitted] at hkept
    exact hkept.sound
  have hsame : ∀ id, id ∉ (commitOf outcome).changed →
      next.workspace.graph.node? id = store.workspace.graph.node? id ∧
      ∀ edge : Edge, edge.touches id = true →
        (edge ∈ next.workspace.graph.edges ↔ edge ∈ store.workspace.graph.edges) := by
    intro id hid
    have halike : store.workspace.graph.AlikeAt next.workspace.graph id :=
      hworkspace ▸ Change.alikeAt_run hrun hid
    exact ⟨hsound.node?_eq hsoundNext halike, halike.edges⟩
  refine ⟨hsame, fun hnone => ?_⟩
  have hunnamed : ∀ id, id ∉ (commitOf outcome).changed := by
    intro id
    rw [commitOf, Delta.changedNodes_eq_nil hnone]
    exact List.not_mem_nil
  exact ⟨fun id => (hsame id (hunnamed id)).1, fun edge =>
    (hsame edge.source (hunnamed edge.source)).2 edge (Edge.touches_iff.2 (.inl rfl))⟩

open Importing

/-- When another importer comes, the files that are there keep their nodes, and so does the import
that they have. An edit that changes nothing is recorded as nothing. -/
theorem changes_recorded_imported :
    let store := imported python ⟨⟨"a.py"⟩, "f = 1\n"⟩ ⟨⟨"b.py"⟩, "from a import f\n"⟩
    let add : Change := .add ⟨"c.py"⟩ "from a import f\n"
    let edit : Change := .edit ⟨"b.py"⟩ ⟨0, 0⟩ "" none
    (∃ next, process python store 2 add = (next, .committed ⟨3, [2, 5, 6], 6⟩) ∧
      ∀ id ∈ [1, 3, 4], next.workspace.graph.node? id = store.workspace.graph.node? id) ∧
    ∃ next, process python store 2 edit = (next, .committed ⟨3, [], 0⟩) ∧
      ∀ id, next.workspace.graph.node? id = store.workspace.graph.node? id := by
  intro store add edit
  have hstore : store.Reachable python := reachable_imported ..
  obtain ⟨hadd, hedit⟩ : (process python store 2 add).2 = .committed ⟨3, [2, 5, 6], 6⟩ ∧
      (process python store 2 edit).2 = .committed ⟨3, [], 0⟩ := by decide +kernel
  constructor
  · generalize hresult : process python store 2 add = result at hadd
    obtain ⟨next, _⟩ := result
    cases hadd
    have hunnamed : ∀ id ∈ [1, 3, 4], id ∉ [2, 5, 6] := by decide
    exact ⟨next, rfl, fun id hid => ((changes_recorded hstore hresult).1 id (hunnamed id hid)).1⟩
  · generalize hresult : process python store 2 edit = result at hedit
    obtain ⟨next, _⟩ := result
    cases hedit
    exact ⟨next, rfl, ((changes_recorded hstore hresult).2 rfl).1⟩

end Store

end CodeGraph
