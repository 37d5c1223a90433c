import CodeGraph.Proofs.Graph.View
import CodeGraph.Query.Stats
import Mathlib.Data.List.Perm.Subperm

/-!
# Comparing workspaces by their edges

Edges by what they join are listed in order and without repetition, so two workspaces list the same
as soon as they have the same.
-/

namespace CodeGraph

/-- The list without its head's repetitions is shorter, and the head is not in it. -/
theorem nodup_eraseDups {α : Type} [DecidableEq α] (items : List α) : items.eraseDups.Nodup := by
  generalize hlength : items.length = length
  induction length using Nat.strong_induction_on generalizing items with
  | _ length ih =>
    cases items with
    | nil => exact List.nodup_nil
    | cons head rest =>
      rw [List.eraseDups_cons]
      refine List.nodup_cons.2 ⟨fun hmem => ?_, ih _ ?_ _ rfl⟩
      · simp at hmem
      · rw [← hlength]
        exact Nat.lt_succ_of_le (List.length_filter_le _ _)

namespace EdgeTriple

theorem compare_eq : compare = compareLex (compareOn fun triple => triple.kind.rank)
    (compareLex (compareOn EdgeTriple.source) (compareOn EdgeTriple.target)) := rfl

instance : Std.TransCmp compare :=
  compare_eq ▸ inferInstance

theorem eq_of_compare {left right : EdgeTriple} (hequal : left.compare right = .eq) :
    left = right := by
  rw [compare, Ordering.then_eq_eq, Ordering.then_eq_eq] at hequal
  obtain ⟨hkind, hsource, htarget⟩ := hequal
  obtain ⟨kind, source, target⟩ := left
  obtain ⟨kind', source', target'⟩ := right
  obtain rfl : source = source' := @Std.LawfulEqCmp.eq_of_compare _ Text.compare _ _ _ hsource
  obtain rfl : target = target' := @Std.LawfulEqCmp.eq_of_compare _ Text.compare _ _ _ htarget
  have hrank : kind.rank = kind'.rank := Std.LawfulEqCmp.eq_of_compare hkind
  obtain rfl : kind = kind' := by
    cases kind <;> cases kind' <;> first | rfl | cases hrank
  rfl

/-- Whether a triple is listed before another. -/
def before (left right : EdgeTriple) : Bool :=
  left.compare right != .gt

theorem before_iff {left right : EdgeTriple} : left.before right ↔ (left.compare right).isLE := by
  rw [before]
  cases left.compare right <;> decide

theorem before_trans (first second third : EdgeTriple) (hfirst : first.before second)
    (hsecond : second.before third) : first.before third := by
  rw [before_iff] at *
  exact Std.TransCmp.isLE_trans hfirst hsecond

theorem before_total (left right : EdgeTriple) : left.before right || right.before left := by
  rw [Bool.or_eq_true, before_iff, before_iff, @Std.OrientedCmp.eq_swap _ compare]
  cases right.compare left <;> decide

theorem eq_of_before {left right : EdgeTriple} (hleft : left.before right)
    (hright : right.before left) : left = right := by
  rw [before_iff] at *
  refine eq_of_compare ?_
  rw [@Std.OrientedCmp.eq_swap _ compare] at hright
  revert hleft hright
  cases left.compare right <;> decide

end EdgeTriple

namespace Workspace

/-- An edge of the workspace, by what it joins. -/
def HasTriple (workspace : Workspace) (triple : EdgeTriple) : Prop :=
  ∃ key source target, workspace.graph.hasEdge key ∧
    workspace.graph.node? key.source = some source ∧
    workspace.graph.node? key.target = some target ∧
    triple = ⟨key.kind, source.stableKey, target.stableKey⟩

theorem mem_edgeTriples {workspace : Workspace} {triple : EdgeTriple} :
    triple ∈ workspace.edgeTriples ↔ workspace.HasTriple triple := by
  rw [edgeTriples, List.mem_mergeSort, List.mem_eraseDups, List.mem_filterMap]
  constructor
  · rintro ⟨edge, hedge, htriple⟩
    obtain ⟨source, hsource, htriple⟩ := Option.bind_eq_some_iff.1 htriple
    obtain ⟨target, htarget, htriple⟩ := Option.bind_eq_some_iff.1 htriple
    exact ⟨edge.key, source, target, Graph.hasEdge_iff.2 ⟨edge, hedge, rfl⟩, hsource, htarget,
      (Option.some.inj htriple).symm⟩
  · rintro ⟨key, source, target, hkey, hsource, htarget, rfl⟩
    obtain ⟨edge, hedge, rfl⟩ := Graph.hasEdge_iff.1 hkey
    refine ⟨edge, hedge, ?_⟩
    have hsource : workspace.graph.node? edge.source = some source := hsource
    have htarget : workspace.graph.node? edge.target = some target := htarget
    simp only [hsource, htarget, Option.bind_eq_bind, Option.bind_some]
    rfl

/-- **Workspaces list the same triples when they have the same.** -/
theorem edgeTriples_eq {left right : Workspace}
    (hsame : ∀ triple, left.HasTriple triple ↔ right.HasTriple triple) :
    left.edgeTriples = right.edgeTriples := by
  have hnodup : ∀ workspace : Workspace, workspace.edgeTriples.Nodup := by
    intro workspace
    rw [edgeTriples, (List.mergeSort_perm _ _).nodup_iff]
    exact nodup_eraseDups _
  have hsorted : ∀ workspace : Workspace,
      workspace.edgeTriples.Pairwise fun first second => first.before second := fun workspace =>
    List.pairwise_mergeSort EdgeTriple.before_trans EdgeTriple.before_total _
  refine List.Perm.eq_of_pairwise (fun first second _ _ => EdgeTriple.eq_of_before)
    (hsorted left) (hsorted right) ?_
  refine (List.perm_ext_iff_of_nodup (hnodup left) (hnodup right)).2 fun triple => ?_
  rw [mem_edgeTriples, mem_edgeTriples, hsame]

end Workspace

end CodeGraph
