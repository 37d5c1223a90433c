import CodeGraph.Proofs.Query.Reach
import CodeGraph.Proofs.Transaction.Members

/-!
# Dependencies in a store

In every store that transactions lead to, what a node depends on up to a distance is listed exactly,
and so is what depends on it. The two lists tell of the same pairs of nodes.
-/

namespace CodeGraph.Store

variable {environment : Environment} {store : Store}

/-- **Dependencies and dependents are listed exactly, and are each other's reverse.** In a reachable
store and from a node that is there, the lists hold the other nodes whose shortest walk along imports
and references, or against them, is no longer than the depth, each once with the length of that walk,
ordered by length and id. All of them are there, and a node is among the dependencies of another at a
distance exactly if that one is among its dependents at the same distance. -/
theorem dependencies_exact (hreachable : store.Reachable environment) :
    (∀ start depth, store.workspace.graph.contains start →
      Graph.ListsNearest store.workspace.graph.DependsOn start depth
        (store.workspace.graph.dependenciesOf start depth) ∧
      Graph.ListsNearest (flip store.workspace.graph.DependsOn) start depth
        (store.workspace.graph.blastRadius start depth) ∧
      ∀ entry ∈ store.workspace.graph.dependenciesOf start depth ++
        store.workspace.graph.blastRadius start depth, store.workspace.graph.contains entry.id) ∧
    ∀ first second depth length, store.workspace.graph.contains first →
      store.workspace.graph.contains second →
      (⟨length, second⟩ ∈ store.workspace.graph.dependenciesOf first depth ↔
        ⟨length, first⟩ ∈ store.workspace.graph.blastRadius second depth) := by
  have hsound := hreachable.kept.sound.graph
  refine ⟨fun start depth hlive => ?_, fun first second depth length hfirst hsecond =>
    Graph.mem_dependenciesOf_iff hfirst hsecond⟩
  have hdependencies := Graph.listsNearest_dependenciesOf hlive depth
  have hdependents := Graph.listsNearest_blastRadius hlive depth
  refine ⟨hdependencies, hdependents, fun ⟨length, node⟩ hentry => ?_⟩
  rcases List.mem_append.1 hentry with hentry | hentry
  · obtain ⟨-, -, -, hshortest⟩ := (hdependencies.mem_iff length node).1 hentry
    exact hsound.contains_of_walks hlive (fun _ _ hstep => .inl hstep) hshortest.walks
  · obtain ⟨-, -, -, hshortest⟩ := (hdependents.mem_iff length node).1 hentry
    exact hsound.contains_of_walks hlive (fun _ _ hstep => .inr hstep) hshortest.walks

open Circular Importing

/-- Of two classes that inherit from each other, one is three steps from the file that declares it:
over the import of the other, which is the only way but for the declaration. -/
theorem dependencies_exact_circular :
    ⟨3, 2⟩ ∈ circular.workspace.graph.dependenciesOf 1 3 ∧
      Graph.Shortest circular.workspace.graph.DependsOn 1 3 2 ∧
      ⟨3, 1⟩ ∈ circular.workspace.graph.blastRadius 2 3 ∧
      (∀ length, ⟨length, 2⟩ ∉ circular.workspace.graph.dependenciesOf 1 2) ∧
      ∀ length, ⟨length, 2⟩ ∉ circular.workspace.graph.dependenciesOf 2 9 := by
  have hreachable : circular.Reachable parsing := reachable_imported ..
  obtain ⟨hfile, hclass⟩ : circular.workspace.graph.contains 1 ∧
      circular.workspace.graph.contains 2 := by decide +kernel
  have hfound : ⟨3, 2⟩ ∈ circular.workspace.graph.dependenciesOf 1 3 := by
    rw [Graph.dependenciesOf, Graph.reachFrom, if_pos hfile, List.mem_mergeSort]
    decide +kernel
  obtain ⟨hlists, hreverse⟩ := dependencies_exact hreachable
  obtain ⟨-, -, -, hshortest⟩ := ((hlists 1 3 hfile).1.mem_iff 3 2).1 hfound
  refine ⟨hfound, hshortest, (hreverse 1 2 3 3 hfile hclass).1 hfound, fun length hnear => ?_,
    fun length hself => ?_⟩
  · obtain ⟨-, -, hlength, hnear⟩ := ((hlists 1 2 hfile).1.mem_iff length 2).1 hnear
    have heq := hnear.eq hshortest
    omega
  · exact (((hlists 2 9 hclass).1.mem_iff length 2).1 hself).1 rfl

end CodeGraph.Store
