import CodeGraph.Proofs.Transaction.Evolve
import CodeGraph.Proofs.Transaction.Reachable

/-!
# Runs and their snapshots

A run is the list of all stores that it went through. Every step of it leaves the workspace as it is or
commits the next number, and the record that a file keeps of its edits tells which bytes of it are the
same in an earlier snapshot. This is what the check of a range against its base rests on.
-/

namespace CodeGraph

/-! ### Steps -/

/-- How a commit follows on the workspace before it. -/
structure Workspace.Advances (before after : Workspace) : Prop where
  sequence : after.sequence = before.sequence + 1
  records : before.Continues (before.sequence + 1) after
  graph : before.graph.Ages after.graph

theorem Pass.advances_converge {workspace : Workspace} {pass : Pass} {outcome : Outcome}
    (hcontinues : (Pass.ofWorkspace workspace).Continues pass)
    (hevolves : (Pass.ofWorkspace workspace).workspace.graph.Evolves Edge.IsPlain
      pass.workspace.graph)
    (hconverge : pass.converge = .ok outcome) : workspace.Advances outcome.workspace := by
  obtain ⟨hfiles, -, hsequence, -⟩ := evolves_converge hconverge
  have hbegun : workspace.graph.Ages (Pass.ofWorkspace workspace).workspace.graph :=
    .of_nodes rfl rfl
  refine ⟨hsequence.trans hcontinues.sequence, ?_,
    (hbegun.trans hevolves.ages).trans (ages_converge hconverge)⟩
  exact hcontinues.records.trans (.of_subset fun file hfile => hfiles ▸ hfile)

namespace Change

variable {environment : Environment}

/-- The steps of a change go on with the records of all files but the one that they add. -/
theorem continues_steps {pass after : Pass} {change : Change}
    (hadmitted : change.Admitted pass.workspace)
    (hsteps : change.steps environment pass = .ok after) : pass.Continues after := by
  cases takes_of_steps hsteps with
  | edit hfile hsplice happly =>
    have hcontinues := Pass.continues_applyText (fun old hold bound hbound => by
      obtain rfl := Option.some.inj (hfile.symm.trans hold)
      exact Text.take_bytes_of_splice? hsplice (hbound _ List.mem_cons_self)) happly
    exact ⟨hcontinues.records, hcontinues.sequence⟩
  | add happly =>
    have hcontinues := Pass.continues_applyText
      (fun old hold => by cases hadmitted.2.2.symm.trans hold) happly
    exact ⟨hcontinues.records, hcontinues.sequence⟩
  | remove hremove =>
    have hcontinues := Pass.continues_remove hremove
    exact ⟨hcontinues.records, hcontinues.sequence⟩
  | rename hrename => exact Pass.continues_rename hrename

theorem advances_run {workspace : Workspace} {change : Change} {outcome : Pass.Outcome}
    (hadmitted : change.Admitted workspace)
    (hrun : change.run environment workspace = .ok outcome) :
    workspace.Advances outcome.workspace := by
  obtain ⟨pass, hsteps, hconverge⟩ := exists_of_bind_eq_ok hrun
  have hbegun : change.Admitted (Pass.ofWorkspace workspace).workspace := by
    cases change <;> exact hadmitted
  exact Pass.advances_converge (continues_steps hbegun hsteps) (evolves_steps hsteps) hconverge

end Change

namespace Store

variable {environment : Environment} {store next : Store}

/-- One step of a run: a transaction, accepted or not, or a file brought up to date with its own
text. -/
inductive Step (environment : Environment) (store : Store) : Store → Prop
  | process (queuedAt : Nat) (change : Change) :
    Step environment store (store.process environment queuedAt change).1
  | resync {next : Store} {path : Path} {mutations : Nat}
    (hresync : store.resync environment path = .ok (mutations, next)) :
    Step environment store next

theorem Step.reachable (hstep : store.Step environment next)
    (hstore : store.Reachable environment) : next.Reachable environment := by
  cases hstep with
  | process queuedAt change => exact hstore.process queuedAt change
  | resync hresync => exact hstore.resync hresync

/-- **A step commits nothing or the next number.** -/
theorem Step.advances (hstep : store.Step environment next) :
    next.workspace = store.workspace ∨ store.workspace.Advances next.workspace := by
  cases hstep with
  | process queuedAt change =>
    refine (workspace_process environment store queuedAt change).imp_right ?_
    rintro ⟨checked, outcome, hvalid, hrun, hworkspace, -⟩
    exact hworkspace ▸ Change.advances_run (Change.admitted_of_validate hvalid) hrun
  | resync hresync =>
    obtain ⟨found, file, pass, outcome, -, hfile, happly, hconverge, -, rfl⟩ :=
      exists_of_resync hresync
    split
    · exact .inl rfl
    · have hcontinues : (Pass.ofWorkspace store.workspace).Continues pass :=
        Pass.continues_applyText (fun old hold _ _ => by
          rw [Option.some.inj (hfile.symm.trans hold)]) happly
      exact .inr (Pass.advances_converge hcontinues (Pass.evolves_applyText happly) hconverge)

/-! ### Runs -/

/-- A run with the stores it went through before the current one, the latest first. -/
inductive Run (environment : Environment) : List Store → Store → Prop
  | empty (disk : Disk) : Run environment [] { disk }
  | build {sources : List Source} {workspace : Workspace} (disk : Disk)
    (hbuild : Workspace.ofSources environment sources = .ok workspace) :
    Run environment [] ⟨workspace, disk⟩
  | step {earlier : List Store} {current next : Store} (hrun : Run environment earlier current)
    (hstep : current.Step environment next) : Run environment (current :: earlier) next

variable {earlier : List Store} {current : Store}

theorem Run.reachable (hrun : Run environment earlier current) :
    ∀ store ∈ current :: earlier, store.Reachable environment := by
  induction hrun with
  | empty disk => exact fun store hstore => List.mem_singleton.1 hstore ▸ .empty disk
  | build disk hbuild => exact fun store hstore => List.mem_singleton.1 hstore ▸ .build disk hbuild
  | step hrun hstep ih =>
    intro store hstore
    obtain rfl | hstore := List.mem_cons.1 hstore
    · exact hstep.reachable (ih _ List.mem_cons_self)
    · exact ih store hstore

theorem Importing.exists_run_imported (environment : Environment) (file importer : Source) :
    ∃ earlier, Run environment earlier (imported environment file importer) :=
  ⟨_, .step (.step (.empty {}) (.process 0 _)) (.process 1 _)⟩

/-- All files of a build were added by its commit. -/
theorem created_of_ofSources {sources : List Source} {workspace : Workspace}
    (hbuild : Workspace.ofSources environment sources = .ok workspace) :
    ∀ file ∈ workspace.files, file.created = workspace.sequence := by
  obtain ⟨pass, hloop, hrest⟩ := exists_of_bind_eq_ok hbuild
  obtain ⟨outcome, hconverge, hworkspace⟩ := exists_of_bind_eq_ok hrest
  obtain rfl := Except.ok.inj hworkspace
  obtain ⟨hfiles, -, hsequence, -⟩ := Pass.evolves_converge hconverge
  rw [hfiles, hsequence]
  refine rel_of_foldlM_eq_ok (fun before after : Pass =>
    (∀ file ∈ before.workspace.files, file.created = before.sequence) →
      ∀ file ∈ after.workspace.files, file.created = after.sequence)
    (fun _ h => h) (fun hfirst hsecond h => hsecond (hfirst h))
    (fun source _ state next happly hcreated file hfile => ?_) hloop (by rintro _ ⟨⟩)
  obtain ⟨_, put, -, hinstalled⟩ := Pass.exists_installed_of_applyText happly
  rw [hinstalled.sequence]
  obtain rfl | ⟨hold, -⟩ := (hinstalled.mem_files file).1 hfile
  · cases hprevious : state.workspace.file? source.path with
    | none => exact hinstalled.created hprevious
    | some old =>
      exact (hinstalled.recorded old hprevious).created.trans
        (hcreated old (Workspace.file?_mem hprevious).1)
  · exact hcreated file hold

/-- What the records of a workspace tell about the snapshots of the run that led to it. Commits are
numbered without gaps. A file was at its path in every snapshot since it was created, and the bytes
before all its edits since then were the same, as long as no such edit was forgotten. -/
structure Traced (run : List Store) (workspace : Workspace) : Prop where
  numbered : ∀ first ∈ run, ∀ number, first.workspace.sequence ≤ number →
    number ≤ workspace.sequence → ∃ store ∈ run, store.workspace.sequence = number
  le : ∀ store ∈ run, store.workspace.sequence ≤ workspace.sequence
  created : ∀ file ∈ workspace.files, file.created ≤ workspace.sequence ∧
    ∃ first ∈ run, first.workspace.sequence ≤ file.created
  traced : ∀ store ∈ run, ∀ file ∈ workspace.files, file.created ≤ store.workspace.sequence →
    file.historyFloor ≤ store.workspace.sequence → ∃ old ∈ store.workspace.files,
      old.path = file.path ∧ ∀ bound, (∀ applied ∈ file.history,
        store.workspace.sequence < applied.sequence → bound ≤ applied.edit.start) →
        (Text.bytes old.text).take bound = (Text.bytes file.text).take bound

/-- A workspace that a run begins with. -/
theorem traced_singleton {store : Store}
    (hcreated : ∀ file ∈ store.workspace.files, file.created = store.workspace.sequence) :
    Traced [store] store.workspace := by
  refine ⟨fun first hfirst number hle hge => ?_, fun other hother => ?_, fun file hfile => ?_,
    fun other hother file hfile _ _ => ?_⟩
  · obtain rfl := List.mem_singleton.1 hfirst
    exact ⟨first, hfirst, le_antisymm hle hge⟩
  · rw [List.mem_singleton.1 hother]
  · exact ⟨(hcreated file hfile).le, store, List.mem_cons_self, (hcreated file hfile).ge⟩
  · obtain rfl := List.mem_singleton.1 hother
    exact ⟨file, hfile, rfl, fun _ _ => rfl⟩

/-- A step that commits nothing. -/
theorem Traced.cons_same {run : List Store} (htraced : Traced run store.workspace)
    (hstore : store ∈ run) (hsame : next.workspace = store.workspace) :
    Traced (next :: run) next.workspace := by
  rw [hsame]
  refine ⟨fun first hfirst number hle hge => ?_, fun other hother => ?_, fun file hfile => ?_,
    fun other hother file hfile hcreated hfloor => ?_⟩
  · have hlater : ∃ store ∈ run, store.workspace.sequence = number := by
      obtain rfl | hfirst := List.mem_cons.1 hfirst
      · exact htraced.numbered store hstore number (hsame ▸ hle) hge
      · exact htraced.numbered first hfirst number hle hge
    obtain ⟨found, hfound, hnumber⟩ := hlater
    exact ⟨found, List.mem_cons_of_mem _ hfound, hnumber⟩
  · obtain rfl | hother := List.mem_cons.1 hother
    · rw [hsame]
    · exact htraced.le other hother
  · obtain ⟨hle, first, hfirst, hbegun⟩ := htraced.created file hfile
    exact ⟨hle, first, List.mem_cons_of_mem _ hfirst, hbegun⟩
  · obtain rfl | hother := List.mem_cons.1 hother
    · rw [hsame] at hcreated hfloor ⊢
      exact htraced.traced store hstore file hfile hcreated hfloor
    · exact htraced.traced other hother file hfile hcreated hfloor

/-- A step that commits the next number. -/
theorem Traced.cons_next {run : List Store} (htraced : Traced run store.workspace)
    (hadvances : store.workspace.Advances next.workspace) :
    Traced (next :: run) next.workspace := by
  have hsequence := hadvances.sequence
  refine ⟨fun first hfirst number hle hge => ?_, fun other hother => ?_, fun file hfile => ?_,
    fun other hother file hfile hcreated hfloor => ?_⟩
  · by_cases hlast : number = next.workspace.sequence
    · exact ⟨next, List.mem_cons_self, hlast.symm⟩
    · obtain rfl | hfirst := List.mem_cons.1 hfirst
      · omega
      · obtain ⟨found, hfound, hnumber⟩ := htraced.numbered first hfirst number hle (by omega)
        exact ⟨found, List.mem_cons_of_mem _ hfound, hnumber⟩
  · obtain rfl | hother := List.mem_cons.1 hother
    · exact le_rfl
    · have hle := htraced.le other hother
      omega
  · obtain hnew | ⟨old, hold, hcontinues⟩ := hadvances.records file hfile
    · exact ⟨by omega, next, List.mem_cons_self, by omega⟩
    · obtain ⟨hle, first, hfirst, hbegun⟩ := htraced.created old hold
      have hcreated := hcontinues.created
      exact ⟨by omega, first, List.mem_cons_of_mem _ hfirst, by omega⟩
  · obtain rfl | hother := List.mem_cons.1 hother
    · exact ⟨file, hfile, rfl, fun _ _ => rfl⟩
    · have hle := htraced.le other hother
      obtain hnew | ⟨middle, hmiddle, hcontinues⟩ := hadvances.records file hfile
      · omega
      · obtain ⟨old, hold, hpath, hbytes⟩ := htraced.traced other hother middle hmiddle
          (hcontinues.created ▸ hcreated) (hcontinues.floor.trans hfloor)
        refine ⟨old, hold, hpath.trans hcontinues.path.symm, fun bound hbound => ?_⟩
        calc (Text.bytes old.text).take bound
            = (Text.bytes middle.text).take bound := hbytes bound fun applied happlied hlater =>
              hbound applied (hcontinues.kept applied happlied (by omega)) hlater
          _ = (Text.bytes file.text).take bound := (hcontinues.unchanged (by omega) bound
              fun applied happlied hnumber => hbound applied happlied (by omega)).symm

/-- **The records of every workspace of a run are those of its snapshots.** -/
theorem Run.traced (hrun : Run environment earlier current) :
    Traced (current :: earlier) current.workspace := by
  induction hrun with
  | empty disk => exact traced_singleton (by rintro _ ⟨⟩)
  | build disk hbuild => exact traced_singleton (created_of_ofSources hbuild)
  | step _ hstep ih =>
    obtain hsame | hadvances := hstep.advances
    · exact ih.cons_same List.mem_cons_self hsame
    · exact ih.cons_next hadvances

end Store

end CodeGraph
