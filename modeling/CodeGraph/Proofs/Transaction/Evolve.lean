import CodeGraph.Proofs.Graph.Age
import CodeGraph.Proofs.Transaction.Apply
import CodeGraph.Proofs.Workspace.History

/-!
# How a graph evolves through a pass

The steps of a change and the end of its pass take the graph through small steps only, so it grows
older: an id that a transaction takes out of the graph never comes back. And whatever is inserted,
guesses stay references.
-/

namespace CodeGraph

namespace Pass

/-! ### Steps -/

variable {environment : Environment} {pass next : Pass}

theorem evolves_applyText {path : Path} {text : String} {edits : List TextEdit}
    (happly : applyText environment pass path text edits = .ok next) :
    pass.workspace.graph.Evolves Edge.IsPlain next.workspace.graph := by
  obtain ⟨_, _, -, hinstalled⟩ := exists_installed_of_applyText happly
  exact evolves_syncNodes hinstalled.synced

theorem evolves_remove {path : Path} (hremove : pass.remove path = .ok next) :
    pass.workspace.graph.Evolves Edge.IsPlain next.workspace.graph := by
  obtain ⟨file, graph, -, hgraph, rfl⟩ := remove_cases hremove
  exact Graph.evolves_remove hgraph

theorem evolves_relocate {file : SourceFile} {target : Path}
    (hrelocate : pass.relocate file target = .ok next) :
    pass.workspace.graph.Evolves Edge.IsPlain next.workspace.graph := by
  obtain ⟨graph, hloop, hnext⟩ := exists_of_bind_eq_ok hrelocate
  obtain rfl := Except.ok.inj hnext
  exact rel_of_foldlM_eq_ok (Graph.Evolves Edge.IsPlain) .refl .trans
    (fun id _ state next => Graph.evolves_update) hloop

theorem evolves_respell {entry : Path × List Replacement}
    (hrespell : respell environment pass entry = .ok next) :
    pass.workspace.graph.Evolves Edge.IsPlain next.workspace.graph := by
  obtain rfl | ⟨file, applied, -, happly, rfl⟩ := respell_cases hrespell
  · exact .refl _
  · have hevolves := evolves_applyText happly
    exact hevolves

theorem evolves_rename {source target : Path}
    (hrename : pass.rename environment source target = .ok next) :
    pass.workspace.graph.Evolves Edge.IsPlain next.workspace.graph := by
  obtain ⟨file, moved, applied, -, hrelocate, happly, hloop⟩ := rename_cases hrename
  have hmoved := evolves_relocate hrelocate
  have hrespelled := rel_of_foldlM_eq_ok (fun first second : Pass =>
    first.workspace.graph.Evolves Edge.IsPlain second.workspace.graph) (fun state => .refl _)
    .trans (fun entry _ state next => evolves_respell) hloop
  exact (hmoved.trans (evolves_applyText happly)).trans hrespelled

end Pass

/-- The steps of a change take the graph through small steps. -/
theorem Change.evolves_steps {environment : Environment} {pass next : Pass} {change : Change}
    (hsteps : change.steps environment pass = .ok next) :
    pass.workspace.graph.Evolves Edge.IsPlain next.workspace.graph := by
  cases takes_of_steps hsteps with
  | edit _ _ happly | add happly =>
    have hevolves := Pass.evolves_applyText happly
    exact hevolves
  | remove hremove =>
    have hevolves := Pass.evolves_remove hremove
    exact hevolves
  | rename hrename => exact Pass.evolves_rename hrename

/-! ### The end of a pass -/

namespace Pass

variable {pass next : Pass}

/-- A pass that goes on with the same files under the same number. -/
structure Evolves (before after : Pass) : Prop where
  workspace : before.workspace.Evolves Edge.IsPlain after.workspace
  sequence : after.sequence = before.sequence

theorem Evolves.refl (pass : Pass) : pass.Evolves pass :=
  ⟨.refl _, rfl⟩

theorem Evolves.trans {first second third : Pass} (hfirst : first.Evolves second)
    (hsecond : second.Evolves third) : first.Evolves third :=
  ⟨hfirst.workspace.trans hsecond.workspace, hsecond.sequence.trans hfirst.sequence⟩

theorem evolves_rebind {path : Path} (hrebind : pass.rebind path = .ok next) :
    pass.Evolves next := by
  obtain ⟨bound, hbind, hnext⟩ := exists_of_bind_eq_ok hrebind
  have hevolves := Workspace.evolves_bindFile hbind
  dsimp only at hnext
  split at hnext <;> exact Except.ok.inj hnext ▸ ⟨hevolves, rfl⟩

theorem evolves_settle {rounds : Nat} {propagated : PathSet}
    (hsettle : settle rounds pass propagated = .ok next) : pass.Evolves next := by
  induction rounds generalizing pass propagated with
  | zero => exact Except.ok.inj hsettle ▸ .refl pass
  | succ rounds ih =>
    obtain ⟨hworkspace, honward⟩ := onward_passOn pass propagated
    have hspread : pass.Evolves (pass.passOn propagated) :=
      ⟨by rw [hworkspace]; exact .refl _, honward.sequence⟩
    rw [settle_succ] at hsettle
    split at hsettle
    · exact Except.ok.inj hsettle ▸ hspread
    · obtain ⟨bound, hloop, hrest⟩ := exists_of_bind_eq_ok hsettle
      have hbound := rel_of_foldlM_eq_ok Evolves .refl .trans
        (fun path _ state next => evolves_rebind) hloop
      refine hspread.trans (Evolves.trans ?_ (ih hrest))
      exact ⟨hbound.workspace, hbound.sequence⟩

/-- What a pass makes of the workspace when it converges has the files and the number of the pass. Its
graph is where small steps led to, and its record what the journal holds there. -/
theorem evolves_converge {outcome : Outcome} (hconverge : pass.converge = .ok outcome) :
    outcome.workspace.files = pass.workspace.files ∧
      outcome.workspace.importers = pass.workspace.importers ∧
      outcome.workspace.sequence = pass.sequence ∧
      ∃ graph, pass.workspace.graph.Evolves Edge.IsPlain graph ∧
        graph.takeJournal = (outcome.delta, outcome.workspace.graph) := by
  obtain ⟨settled, hsettle, hrest⟩ := exists_of_bind_eq_ok hconverge
  obtain ⟨linked, hrelink, hrest⟩ := exists_of_bind_eq_ok hrest
  obtain ⟨_, -, houtcome⟩ := exists_of_bind_eq_ok hrest
  obtain rfl := Except.ok.inj houtcome
  obtain ⟨last, hloop, hcollect⟩ := exists_of_bind_eq_ok (eq_ok_of_mapError_eq_ok hrelink)
  have hsettled := evolves_settle (eq_ok_of_mapError_eq_ok hsettle)
  have hlinked := rel_of_foldlM_eq_ok (Workspace.Evolves Edge.IsPlain) .refl .trans
    (fun path _ state next => Workspace.evolves_linkFile) hloop
  have hevolves := (hsettled.workspace.trans hlinked).trans
    (Workspace.evolves_collectExternals hcollect)
  exact ⟨hevolves.files, hevolves.importers, hsettled.sequence, linked.graph, hevolves.graph, rfl⟩

theorem ages_converge {outcome : Outcome} (hconverge : pass.converge = .ok outcome) :
    pass.workspace.graph.Ages outcome.workspace.graph := by
  obtain ⟨-, -, -, graph, hevolves, htake⟩ := evolves_converge hconverge
  have hgraph : graph.takeJournal.2 = outcome.workspace.graph := congrArg Prod.snd htake
  have htaken : graph.Ages graph.takeJournal.2 := .of_nodes rfl rfl
  exact hevolves.ages.trans (hgraph ▸ htaken)

theorem plain_converge {outcome : Outcome} (hplain : pass.workspace.graph.Plain)
    (hconverge : pass.converge = .ok outcome) : outcome.workspace.graph.Plain := by
  obtain ⟨-, -, -, graph, hevolves, htake⟩ := evolves_converge hconverge
  have hgraph : graph.takeJournal.2 = outcome.workspace.graph := congrArg Prod.snd htake
  have htaken : graph.takeJournal.2.Plain := hevolves.plain hplain
  exact hgraph ▸ htaken

end Pass

end CodeGraph
