import CodeGraph.Proofs.Query.Cycles
import CodeGraph.Proofs.Transaction.Members

/-!
# Import cycles in a store

In every store that transactions lead to, the list of import cycles has each elementary cycle of the
files once, and the search for them goes no deeper than there are files.
-/

namespace CodeGraph.Store

open Workspace

variable {environment : Environment} {store : Store}

/-- **Import cycles are enumerated exactly.** In a reachable store the list has the elementary cycles
along resolved imports, down to a file that imports itself, each written from its smallest path and in
that one way only. The list is in strict order, so nothing stands in it twice. From no file does the
search follow a trail that is longer than there are files, and more steps would find nothing else. -/
theorem import_cycles_exact (hreachable : store.Reachable environment) :
    (∀ cycle : List Path, cycle ∈ store.workspace.importCycles ↔
      IsElementary store.workspace.Imports (cycle : Cycle Path) ∧ FromSmallest cycle) ∧
    (∀ cycle : Cycle Path, IsElementary store.workspace.Imports cycle →
      ∃! list : List Path, list ∈ store.workspace.importCycles ∧ (list : Cycle Path) = cycle) ∧
    (store.workspace.importCycles.Pairwise fun left right => compareCycles left right = .lt) ∧
    ∀ start ∈ store.workspace.paths,
      (∀ trail, Tries store.workspace.nextOf start trail →
        trail.length ≤ store.workspace.files.length) ∧
      ∀ more, cyclesFrom store.workspace.nextOf start (store.workspace.files.length + 1 + more)
          [start] =
        cyclesFrom store.workspace.nextOf start (store.workspace.files.length + 1) [start] := by
  have hsound := hreachable.kept.sound
  have hcount : store.workspace.paths.length = store.workspace.files.length := List.length_map _
  refine ⟨fun _ => hsound.mem_importCycles_iff, fun _ => hsound.existsUnique_importCycles,
    hsound.pairwise_importCycles, fun start hstart => ⟨fun trail htries => ?_, fun more => ?_⟩⟩
  · exact hcount ▸ htries.length_le hsound.nextOf_subset hstart
  · refine cyclesFrom_add hsound.nextOf_subset hstart .begin ?_ more
    rw [hcount, List.length_singleton]
    omega

open Circular Importing

/-- Two files that import each other's classes are one cycle, which is written from the first of them
and not from the second. Neither of them imports itself. -/
theorem import_cycles_exact_circular :
    [⟨"a.py"⟩, ⟨"b.py"⟩] ∈ circular.workspace.importCycles ∧
      IsElementary circular.workspace.Imports ([⟨"b.py"⟩, ⟨"a.py"⟩] : List Path) ∧
      [⟨"b.py"⟩, ⟨"a.py"⟩] ∉ circular.workspace.importCycles ∧
      [⟨"a.py"⟩] ∉ circular.workspace.importCycles := by
  have hreachable : circular.Reachable parsing := reachable_imported ..
  obtain ⟨hlisted, -, -, -⟩ := import_cycles_exact hreachable
  have hfound : [⟨"a.py"⟩, ⟨"b.py"⟩] ∈ circular.workspace.importCycles := by
    rw [mem_importCycles]
    decide +kernel
  have hrotated : (([⟨"b.py"⟩, ⟨"a.py"⟩] : List Path) : Cycle Path) =
      ([⟨"a.py"⟩, ⟨"b.py"⟩] : List Path) := Cycle.coe_eq_coe.2 ⟨1, rfl⟩
  refine ⟨hfound, hrotated ▸ ((hlisted _).1 hfound).1, fun hlater => ?_, fun hself => ?_⟩
  · obtain ⟨hsmaller⟩ := ((hlisted _).1 hlater).2
    exact absurd (hsmaller ⟨"a.py"⟩ List.mem_cons_self) (by decide +kernel)
  · rw [mem_importCycles] at hself
    exact absurd hself (by decide +kernel)

end CodeGraph.Store
