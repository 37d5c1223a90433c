import CodeGraph.Proofs.Transaction.Run
import CodeGraph.Proofs.Workspace.Identity

/-!
# Identities over a run

The id of a node means the same thing in every snapshot of a run, and an id that is gone stays gone.
From one commit to the next a file keeps its node, also when it moves, and its symbols keep theirs as
long as they are found again under their kind and qualified name.
-/

namespace CodeGraph

namespace Change

/-- Where a file is found after a change. -/
def moves : Change → Path → Path
  | rename source target, path => if path = source then target else path
  | edit .., path | add .., path | remove _, path => path

variable {environment : Environment} {pass next : Pass}

/-- What is found of a file after the steps of a change retains its nodes. -/
theorem retains_steps {change : Change} (hsound : pass.workspace.Sound environment)
    (hadmitted : change.Admitted pass.workspace)
    (hsteps : change.steps environment pass = .ok next) :
    ∀ path old new, pass.workspace.file? path = some old →
      next.workspace.file? (change.moves path) = some new → old.Retains new := by
  -- a file that is kept in place, when paths lead to one file at most
  have hplace : ∀ {touched : Path → Prop} {after : Pass}, pass.Retains touched after →
      after.workspace.files = next.workspace.files → ∀ path old new,
      pass.workspace.file? path = some old → next.workspace.file? path = some new →
      old.Retains new := by
    intro touched after hretained hfiles path old new hold hnew
    obtain ⟨holdMem, rfl⟩ := Workspace.file?_mem hold
    obtain ⟨hnewMem, hpath⟩ := Workspace.file?_mem hnew
    obtain ⟨found, hfound, hsame, hretains, -⟩ := hretained.retained old holdMem
    rw [← hfiles] at hnewMem
    exact hretained.ordered.eq_of_path hfound hnewMem (hsame.trans hpath.symm) ▸ hretains
  cases takes_of_steps hsteps with
  | edit hfile _ happly =>
    obtain ⟨hmem, rfl⟩ := Workspace.file?_mem hfile
    exact hplace (Pass.retains_applyText hsound.ordered (hsound.ordered.normal _ hmem) happly) rfl
  | add happly => exact hplace (Pass.retains_applyText hsound.ordered hadmitted.1 happly) rfl
  | remove hremove =>
    obtain ⟨file, graph, -, -, rfl⟩ := Pass.remove_cases hremove
    intro path old new hold hnew
    obtain ⟨holdMem, rfl⟩ := Workspace.file?_mem hold
    obtain ⟨hnewMem, hpath⟩ := Workspace.file?_mem hnew
    have hsame := hsound.ordered.eq_of_path holdMem (Workspace.mem_dropFile.1 hnewMem).1 hpath.symm
    exact hsame ▸ .refl old
  | rename hrename =>
    obtain ⟨hordered, hretained⟩ :=
      Pass.retains_rename hsound hadmitted.2.1 hadmitted.2.2.2 hrename
    intro path old new hold hnew
    obtain ⟨holdMem, rfl⟩ := Workspace.file?_mem hold
    obtain ⟨hnewMem, hpath⟩ := Workspace.file?_mem hnew
    obtain ⟨found, hfound, hsame, hretains⟩ := hretained old holdMem
    exact hordered.eq_of_path hfound hnewMem (hsame.trans hpath.symm) ▸ hretains

/-- A commit keeps the identities of files and symbols. -/
theorem retains_run {workspace : Workspace} {change : Change} {outcome : Pass.Outcome}
    (hsound : workspace.Sound environment) (hadmitted : change.Admitted workspace)
    (hrun : change.run environment workspace = .ok outcome) {path : Path} {old new : SourceFile}
    (hold : workspace.file? path = some old)
    (hnew : outcome.workspace.file? (change.moves path) = some new) : old.Retains new := by
  obtain ⟨pass, hsteps, hconverge⟩ := exists_of_bind_eq_ok hrun
  have hbegun : change.Admitted (Pass.ofWorkspace workspace).workspace := by
    cases change <;> exact hadmitted
  refine retains_steps (Pass.sound_ofWorkspace hsound) hbegun hsteps path old new hold ?_
  rwa [Workspace.file?, ← (Pass.evolves_converge hconverge).1]

end Change

namespace Store

variable {environment : Environment} {earlier : List Store} {current : Store}

/-- Of two stores of a run the later one has the older graph. -/
theorem Run.pairwise_ages (hrun : Run environment earlier current) :
    (current :: earlier).Pairwise fun later store =>
      store.workspace.graph.Ages later.workspace.graph := by
  induction hrun with
  | empty disk => exact List.pairwise_singleton _ _
  | build disk hbuild => exact List.pairwise_singleton _ _
  | @step earlier current next _ hstep ih =>
    have hlast : current.workspace.graph.Ages next.workspace.graph := by
      obtain hsame | hadvances := hstep.advances
      · exact hsame ▸ .refl _
      · exact hadvances.graph
    refine List.Pairwise.cons (fun store hstore => ?_) ih
    obtain rfl | hstore := List.mem_cons.1 hstore
    · exact hlast
    · exact ((List.pairwise_cons.1 ih).1 store hstore).trans hlast

/-- What a later snapshot has under the id of a node is of the same kind. -/
theorem Run.node?_later (hrun : Run environment earlier current) {first second : Store}
    (hsublist : [second, first].Sublist (current :: earlier)) {id : NodeId} {old new : Node}
    (hold : first.workspace.graph.node? id = some old)
    (hnew : second.workspace.graph.node? id = some new) : new.kind = old.kind := by
  have hages := List.rel_of_pairwise_cons (hrun.pairwise_ages.sublist hsublist) List.mem_cons_self
  have hlt := (hrun.reachable first (hsublist.subset (by simp))).kept.sound.graph.lt_nextId hold
  obtain hlate | ⟨before, hbefore, hkind⟩ := hages.kept id new hnew
  · exact absurd hlt (Nat.not_lt.2 hlate)
  · obtain rfl := Option.some.inj (hold.symm.trans hbefore)
    exact hkind.symm

theorem Run.node?_gone (hrun : Run environment earlier current) {first second third : Store}
    (hsublist : [third, second, first].Sublist (current :: earlier)) {id : NodeId}
    (hlive : first.workspace.graph.contains id) (hgone : ¬ second.workspace.graph.contains id) :
    ¬ third.workspace.graph.contains id := by
  have hpairwise := hrun.pairwise_ages.sublist hsublist
  have hlater := List.rel_of_pairwise_cons hpairwise.of_cons List.mem_cons_self
  have hlast := List.rel_of_pairwise_cons hpairwise List.mem_cons_self
  obtain ⟨old, hold⟩ := Graph.contains_iff.1 hlive
  have hlt := (hrun.reachable first (hsublist.subset (by simp))).kept.sound.graph.lt_nextId hold
  intro hback
  obtain ⟨found, hfound⟩ := Graph.contains_iff.1 hback
  obtain hlate | ⟨middle, hmiddle, -⟩ := hlast.kept id found hfound
  · exact absurd hlt (Nat.not_lt.2 (hlater.nextId.trans hlate))
  · exact hgone (Graph.contains_of_node? hmiddle)

/-- **Ids keep their meaning over a run.** A node that is in one snapshot and not in a later one is
never back, and it is of one kind in all snapshots that it is in. A committed transaction leaves each
file its node, and each symbol that is found before and after, by its kind, its qualified name and its
place among the symbols with both, its node as well. -/
theorem identities_stable (hrun : Run environment earlier current) :
    (∀ first second third, [third, second, first].Sublist (current :: earlier) →
      ∀ id, first.workspace.graph.contains id → ¬ second.workspace.graph.contains id →
        ¬ third.workspace.graph.contains id) ∧
    (∀ first second, [second, first].Sublist (current :: earlier) → ∀ id old new,
      first.workspace.graph.node? id = some old → second.workspace.graph.node? id = some new →
      new.kind = old.kind) ∧
    ∀ queuedAt change next commit,
      current.process environment queuedAt change = (next, .committed commit) →
      ∃ checked, change.validate environment.config current.workspace queuedAt = .ok checked ∧
        ∀ path old new, current.workspace.file? path = some old →
          next.workspace.file? (checked.moves path) = some new → old.Retains new := by
  refine ⟨fun first second third hsublist id => hrun.node?_gone hsublist,
    fun first second hsublist id old new => hrun.node?_later hsublist,
    fun queuedAt change next commit hcommitted => ?_⟩
  obtain ⟨checked, outcome, hvalid, hchange, hworkspace⟩ := exists_run_of_committed hcommitted
  refine ⟨checked, hvalid, fun path old new hold hnew => ?_⟩
  rw [hworkspace] at hnew
  exact Change.retains_run (hrun.reachable current List.mem_cons_self).kept.sound
    (Change.admitted_of_validate hvalid) hchange hold hnew

open Importing

/-- The nodes of a file and its variable that were removed are not there when the same text is added at
the same path, and when that file moves it keeps its node and that of its variable, which is imported
all the while. -/
theorem identities_stable_added_again :
    let added := imported python ⟨⟨"a.py"⟩, "f = 1\n"⟩ ⟨⟨"b.py"⟩, "from a import f\n"⟩
    let removed := (process python added 2 (.remove ⟨"a.py"⟩)).1
    let current := (process python removed 3 (.add ⟨"a.py"⟩ "f = 1\n")).1
    let rename : Change := .rename ⟨"a.py"⟩ ⟨"c.py"⟩
    ¬ current.workspace.graph.contains 1 ∧ ¬ current.workspace.graph.contains 2 ∧
      bindings current ⟨"b.py"⟩ = some [(4, some (.resolved 7))] ∧
      ∃ next commit, process python current 4 rename = (next, .committed commit) ∧
        ∀ old new, current.workspace.file? ⟨"a.py"⟩ = some old →
          next.workspace.file? ⟨"c.py"⟩ = some new → old.Retains new := by
  intro added removed current rename
  obtain ⟨earlier, hadded⟩ := exists_run_imported python ⟨⟨"a.py"⟩, "f = 1\n"⟩
    ⟨⟨"b.py"⟩, "from a import f\n"⟩
  have hrun : Run python (removed :: added :: earlier) current :=
    .step (.step hadded (.process 2 _)) (.process 3 _)
  obtain ⟨hfirst, hsecond, hgoneFirst, hgoneSecond, hbound, hvalid, hcommits⟩ :
      added.workspace.graph.contains 1 ∧ added.workspace.graph.contains 2 ∧
        ¬ removed.workspace.graph.contains 1 ∧ ¬ removed.workspace.graph.contains 2 ∧
        bindings current ⟨"b.py"⟩ = some [(4, some (.resolved 7))] ∧
        rename.validate python.config current.workspace 4 = .ok rename ∧
        (process python current 4 rename).2.isCommitted := by decide +kernel
  obtain ⟨hgone, -, hstable⟩ := identities_stable hrun
  obtain ⟨commit, hprocess⟩ := exists_commit_of_isCommitted hcommits
  have hsublist : [current, removed, added].Sublist (current :: removed :: added :: earlier) :=
    ((List.nil_sublist earlier).cons_cons added).cons_cons removed |>.cons_cons current
  refine ⟨hgone added removed current hsublist 1 hfirst hgoneFirst,
    hgone added removed current hsublist 2 hsecond hgoneSecond, hbound, _, commit, hprocess,
    fun old new hold hnew => ?_⟩
  obtain ⟨checked, hchecked, hretains⟩ := hstable 4 rename _ commit hprocess
  obtain rfl := Except.ok.inj (hvalid.symm.trans hchecked)
  have hmoves : rename.moves ⟨"a.py"⟩ = ⟨"c.py"⟩ := by decide
  exact hretains _ old new hold (hmoves ▸ hnew)

end Store

end CodeGraph
