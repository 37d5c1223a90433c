import CodeGraph.Proofs.Transaction.Reachable
import CodeGraph.Proofs.Workspace.Propagation

/-!
# Transactions that others can see

A file that is added, removed or edited so that its signature changes is passed on to its importers.
If all imports stood for what they resolve to before, they do so after the commit.
-/

namespace CodeGraph

namespace Change

/-- Others can see a difference: a file comes or goes, or an edit changes its signature. -/
def Shows (before after : Workspace) : Change → Prop
  | edit path .. => (before.file? path).map (fun file => file.facts.signature) ≠
    (after.file? path).map fun file => file.facts.signature
  | add .. | remove _ => True
  | rename .. => False

/-- A change at one path: the file there comes, goes or is replaced, what comes is to be bound, and
the path is passed on unless the file looks the same. -/
structure SwapsAt (environment : Environment) (workspace : Workspace) (change : Change)
    (path : Path) (put? : Option SourceFile) (pass : Pass) : Prop where
  swapped : Workspace.Swapped environment (Pass.ofWorkspace workspace).workspace path put?
    pass.workspace
  stands : pass.workspace.Stands environment (fun _ => False) (· ∈ pass.bind)
  bind : put?.isSome → path ∈ pass.bind
  changed : ∀ after : Workspace, after.files = pass.workspace.files →
    change.Shows workspace after → ∀ other, other ∈ pass.changed ↔ other = path

section Steps

variable {environment : Environment} {workspace : Workspace} {pass : Pass}
  (hsound : workspace.Sound environment)

include hsound

/-- A pass begins with the imports bound as they are. -/
theorem resolved_ofWorkspace (hresolved : ∀ file ∈ workspace.files, workspace.Resolved file) :
    ∀ file ∈ (Pass.ofWorkspace workspace).workspace.files,
      (Pass.ofWorkspace workspace).workspace.Resolved file :=
  fun file hfile => (Pass.adjusted_ofWorkspace hsound).resolved hsound hfile (hresolved file hfile)

/-- A text that was applied to a workspace in which nothing waits. -/
theorem swapsAt_of_applied {change : Change} {path : Path} {text : String} {file : SourceFile}
    (happlied : Pass.Applied environment (Pass.ofWorkspace workspace) path text file pass)
    (hshows : ∀ after : Workspace, after.file? path = some file → change.Shows workspace after →
      ∀ old, workspace.file? path = some old → old.facts.signature ≠ file.facts.signature) :
    change.SwapsAt environment workspace path (some file) pass where
  swapped := happlied.swapped
  stands := (happlied.stands (Pass.stands_ofWorkspace hsound)).mono (fun _ _ h => h.1) fun _ _ h => h
  bind := fun _ => happlied.bind ▸ PathSet.mem_insert.2 (.inl rfl)
  changed := by
    intro after hfiles hafter other
    have hfile : after.file? path = some file := by
      have hput := happlied.swapped.file? (Pass.sound_ofWorkspace hsound).ordered path
      rw [if_pos rfl] at hput
      rw [Workspace.file?, hfiles]
      exact hput
    have hdiffers : ¬ (workspace.file? path).any fun old =>
        old.facts.signature = file.facts.signature := by
      intro hany
      obtain ⟨old, hold, hsame⟩ := (Option.any_eq_true _ _).1 hany
      exact hshows after hfile hafter old hold (of_decide_eq_true hsame)
    have hchanged : pass.changed = PathSet.insert path [] :=
      happlied.changed.trans (if_neg hdiffers)
    rw [hchanged, PathSet.mem_insert, or_iff_left List.not_mem_nil]

/-- An edit makes the text that it comes to the content of its file. -/
theorem exists_applied_edit {path : Path} {range : ByteRange} {text : String} {base : Option Nat}
    (hadmitted : (edit path range text base).Admitted workspace)
    (hsteps : (edit path range text base).steps environment (Pass.ofWorkspace workspace) =
      .ok pass) :
    ∃ content put, Pass.Applied environment (Pass.ofWorkspace workspace) path content put pass ∧
      (edit path range text base).SwapsAt environment workspace path (some put) pass := by
  obtain ⟨file, hfile, -⟩ := hadmitted
  obtain ⟨hmem, rfl⟩ := Workspace.file?_mem hfile
  have hfile' : (Pass.ofWorkspace workspace).workspace.file? file.path = some file := hfile
  rw [steps, hfile'] at hsteps
  simp only at hsteps
  split at hsteps
  · cases hsteps
  · rename_i content _
    obtain ⟨put, applied, hrun, happlied⟩ := Pass.exists_applyText
      (Pass.sound_ofWorkspace hsound) (hsound.ordered.normal file hmem)
      (Pass.isSupported_of_current (hsound.drawn file hmem not_false).2) content
      [TextEdit.replace range (Text.size text)]
    rw [hrun, ok_bind] at hsteps
    obtain rfl := Except.ok.inj hsteps
    have hnoted : Pass.Applied environment (Pass.ofWorkspace workspace) file.path content put
        (applied.writeBack (.write file.path content)) :=
      ⟨happlied.swapped, happlied.text_eq, happlied.sequence, happlied.bind, happlied.link,
        happlied.changed⟩
    refine ⟨content, put, hnoted,
      swapsAt_of_applied hsound hnoted fun after hput hshows old hold hsame => hshows ?_⟩
    rw [hold, hput, Option.map_some, Option.map_some, hsame]

theorem exists_swapsAt {change : Change} (hadmitted : change.Admitted workspace)
    (hmoves : ∀ source target, change ≠ rename source target)
    (hsteps : change.steps environment (Pass.ofWorkspace workspace) = .ok pass) :
    ∃ path put?, change.SwapsAt environment workspace path put? pass := by
  have hstart := Pass.sound_ofWorkspace hsound
  cases change with
  | edit path range text base =>
    obtain ⟨-, put, -, hswaps⟩ := exists_applied_edit hsound hadmitted hsteps
    exact ⟨path, some put, hswaps⟩
  | add path content =>
    obtain ⟨hnormal, hsupported, habsent⟩ := hadmitted
    obtain ⟨put, applied, hrun, happlied⟩ :=
      Pass.exists_applyText hstart hnormal hsupported content []
    rw [steps, hrun, ok_bind] at hsteps
    obtain rfl := Except.ok.inj hsteps
    have hswaps : (add path content).SwapsAt environment workspace path (some put) applied := by
      refine swapsAt_of_applied hsound happlied fun _ _ _ old hold => ?_
      rw [habsent] at hold
      cases hold
    exact ⟨path, some put, hswaps.swapped, hswaps.stands, hswaps.bind, hswaps.changed⟩
  | remove path =>
    obtain ⟨file, hfile⟩ := hadmitted
    have hfile' : (Pass.ofWorkspace workspace).workspace.file? path = some file := hfile
    obtain ⟨dropped, hrun, hdropped⟩ := Pass.exists_dropped hstart hfile'
    rw [steps, hrun, ok_bind] at hsteps
    obtain rfl := Except.ok.inj hsteps
    have hchanged : dropped.changed = PathSet.insert path [] := hdropped.changed
    have hmem : ∀ other, other ∈ dropped.changed ↔ other = path := fun other => by
      rw [hchanged, PathSet.mem_insert, or_iff_left List.not_mem_nil]
    exact ⟨path, none, hdropped.swapped, hdropped.stands (Pass.stands_ofWorkspace hsound), by simp,
      fun _ _ _ => hmem⟩
  | rename source target => exact absurd rfl (hmoves source target)

/-- A change that others can see leaves all imports bound to what they resolve to. -/
theorem resolved_run {change : Change} {outcome : Pass.Outcome}
    (hadmitted : change.Admitted workspace)
    (hresolved : ∀ file ∈ workspace.files, workspace.Resolved file)
    (hrun : change.run environment workspace = .ok outcome)
    (hshows : change.Shows workspace outcome.workspace) :
    ∀ file ∈ outcome.workspace.files, outcome.workspace.Resolved file := by
  obtain ⟨pass, hsteps, hconverge⟩ := exists_of_bind_eq_ok hrun
  have hmoves : ∀ source target, change ≠ rename source target := by
    rintro source target rfl
    exact hshows
  obtain ⟨path, put?, hswaps⟩ := exists_swapsAt hsound hadmitted hmoves hsteps
  obtain ⟨outcome', hconverge', hconverged⟩ := Pass.exists_converge hswaps.stands
  obtain rfl := Except.ok.inj (hconverge.symm.trans hconverge')
  exact hconverged.resolved_all (Pass.sound_ofWorkspace hsound) hswaps.swapped hswaps.bind
    (resolved_ofWorkspace hsound hresolved)
    (hswaps.changed outcome.workspace hconverged.files hshows)

end Steps

end Change

namespace Store

variable {environment : Environment} {store next : Store}

/-- **Imports follow every change that others can see.** In a reachable store whose imports all stand
for what they resolve to, a committed transaction that adds a file, removes one or edits one so that
its signature changes leads to a store of the same kind: all imports of all files are among the
resolutions, and all stand for what these say. -/
theorem imports_follow (hreachable : store.Reachable environment)
    (hresolved : ∀ file ∈ store.workspace.files, store.workspace.Resolved file) {queuedAt : Nat}
    {change checked : Change} {commit : Commit}
    (hvalid : change.validate environment.config store.workspace queuedAt = .ok checked)
    (hcommitted : store.process environment queuedAt change = (next, .committed commit))
    (hshows : checked.Shows store.workspace next.workspace) :
    ∀ file ∈ next.workspace.files,
      (next.workspace.resolutions file).map Prod.fst = file.imports ∧
        next.workspace.Resolved file := by
  obtain ⟨checked', outcome, hvalid', hrun, hnext⟩ := exists_run_of_committed hcommitted
  obtain rfl := Except.ok.inj (hvalid.symm.trans hvalid')
  have hsound := hreachable.kept.sound
  have hkept : next.Kept environment := by
    have h := kept_process hreachable.kept queuedAt change
    rwa [hcommitted] at h
  have hall := Change.resolved_run hsound (Change.admitted_of_validate hvalid) hresolved hrun
    (hnext ▸ hshows)
  rw [← hnext] at hall
  exact fun file hfile => ⟨Workspace.map_fst_resolutions _ (hkept.sound.parallel file hfile),
    hall file hfile⟩

/-- An import of a module that is not there yet stands for the file that is added later. -/
theorem imports_follow_added :
    let tree (kind : String) (range : ByteRange) (field : Option String) (children : List Tree) :
        Tree := ⟨kind, true, false, false, false, range, field, children⟩
    let importing := tree "module" ⟨0, 9⟩ none [tree "import_statement" ⟨0, 8⟩ none
      [tree "dotted_name" ⟨7, 8⟩ (some "name") [tree "identifier" ⟨7, 8⟩ none []]]]
    let environment : Environment :=
      ⟨{}, fun _ text => if text = "import b\n" then importing else default⟩
    let store := (process environment {} 0 (.add ⟨"a.py"⟩ "import b\n")).1
    let next := (process environment store 1 (.add ⟨"b.py"⟩ "x = 1\n")).1
    store.workspace.bindingAt? 2 = some (.external "b") ∧
      next.workspace.bindingAt? 2 = some (.resolved 4) ∧
      ∀ file ∈ next.workspace.files, (next.workspace.resolutions file).map Prod.fst = file.imports ∧
        next.workspace.Resolved file := by
  intro tree importing environment store next
  have hreachable : store.Reachable environment := .process (.empty {}) 0 _
  have hresolved : ∀ file ∈ store.workspace.files, ∀ entry ∈ store.workspace.resolutions file,
      store.workspace.bindingAt? entry.1 = some entry.2 := by decide +kernel
  have hvalid : (Change.add ⟨"b.py"⟩ "x = 1\n").validate environment.config store.workspace 1 =
      .ok (.add ⟨"b.py"⟩ "x = 1\n") := by decide +kernel
  have hcommits : (process environment store 1 (.add ⟨"b.py"⟩ "x = 1\n")).2.isCommitted := by
    decide +kernel
  obtain ⟨commit, hprocess⟩ := exists_commit_of_isCommitted hcommits
  have hshows : (Change.add ⟨"b.py"⟩ "x = 1\n").Shows store.workspace next.workspace := trivial
  exact ⟨by decide +kernel, by decide +kernel,
    imports_follow hreachable hresolved hvalid hprocess hshows⟩

end Store

end CodeGraph
