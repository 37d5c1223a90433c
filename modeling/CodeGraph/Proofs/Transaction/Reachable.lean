import CodeGraph.Proofs.Transaction.Apply
import CodeGraph.Proofs.Workspace.Build
import CodeGraph.Proofs.Workspace.Shape

/-!
# Reachable stores

A store begins empty or with a build, and goes on by transactions, accepted or not, and by bringing
files up to date with their own text. The invariant holds in all of them, so every transaction that
validation accepts is committed.
-/

namespace CodeGraph

namespace Store

/-- What a run of transactions and resyncs can lead to. -/
inductive Reachable (environment : Environment) : Store → Prop
  | empty (disk : Disk) : Reachable environment { disk }
  | build {sources : List Source} {workspace : Workspace} (disk : Disk)
    (hbuild : Workspace.ofSources environment sources = .ok workspace) :
    Reachable environment ⟨workspace, disk⟩
  | process {store : Store} (hstore : Reachable environment store) (queuedAt : Nat)
    (change : Change) : Reachable environment (store.process environment queuedAt change).1
  | resync {store next : Store} {path : Path} {mutations : Nat}
    (hstore : Reachable environment store)
    (hresync : store.resync environment path = .ok (mutations, next)) :
    Reachable environment next

variable {environment : Environment} {store : Store}

/-- What holds of a committed workspace. -/
structure Kept (environment : Environment) (store : Store) : Prop where
  sound : store.workspace.Sound environment
  tended : store.workspace.Tended

/-- A transaction leaves the workspace as it is, or was accepted, ran to its end and is committed. -/
theorem workspace_process (environment : Environment) (store : Store) (queuedAt : Nat)
    (change : Change) :
    (store.process environment queuedAt change).1.workspace = store.workspace ∨
      ∃ checked outcome,
        change.validate environment.config store.workspace queuedAt = .ok checked ∧
        checked.run environment store.workspace = .ok outcome ∧
        (store.process environment queuedAt change).1.workspace = outcome.workspace ∧
        (store.process environment queuedAt change).2.isCommitted := by
  rw [process]
  split
  · exact .inl rfl
  · rename_i checked hvalid
    rw [apply]
    split
    · exact .inl rfl
    · rename_i outcome hrun
      simp only
      split
      · split
        · exact .inl rfl
        · exact .inr ⟨checked, outcome, hvalid, hrun, rfl, rfl⟩
      · exact .inr ⟨checked, outcome, hvalid, hrun, rfl, rfl⟩

theorem kept_process (hkept : store.Kept environment) (queuedAt : Nat) (change : Change) :
    (store.process environment queuedAt change).1.Kept environment := by
  obtain hsame | ⟨checked, outcome, hvalid, hrun, hworkspace, -⟩ :=
    workspace_process environment store queuedAt change
  · exact ⟨hsame ▸ hkept.sound, hsame ▸ hkept.tended⟩
  · obtain ⟨found, hfound, hsound, htended, -⟩ :=
      Change.exists_run hkept.sound (Change.admitted_of_validate hvalid)
    obtain rfl := Except.ok.inj (hfound.symm.trans hrun)
    exact ⟨hworkspace ▸ hsound, hworkspace ▸ htended⟩

/-- What a transaction that is committed leaves: the workspace that its run came to, and the disk with
the changes of the run when the disk is to follow. -/
theorem exists_outcome_of_committed {queuedAt : Nat} {change : Change} {next : Store}
    {commit : Commit}
    (hcommitted : store.process environment queuedAt change = (next, .committed commit)) :
    ∃ checked outcome,
      change.validate environment.config store.workspace queuedAt = .ok checked ∧
      checked.run environment store.workspace = .ok outcome ∧
      next.workspace = outcome.workspace ∧ commit = commitOf outcome ∧
      (environment.config.writeThrough = true →
        store.disk.makeChanges environment.config.root outcome.disk = (next.disk, none)) := by
  rw [process] at hcommitted
  split at hcommitted
  · cases (Prod.mk.inj hcommitted).2
  · rename_i checked hvalid
    rw [apply] at hcommitted
    split at hcommitted
    · cases (Prod.mk.inj hcommitted).2
    · rename_i outcome hrun
      refine ⟨checked, outcome, hvalid, hrun, ?_⟩
      simp only at hcommitted
      split at hcommitted
      · split at hcommitted
        · cases (Prod.mk.inj hcommitted).2
        · rename_i disk hmade
          obtain ⟨rfl, hcommit⟩ := Prod.mk.inj hcommitted
          exact ⟨rfl, (TransactionResult.committed.inj hcommit).symm, fun _ => hmade⟩
      · rename_i hoff
        obtain ⟨rfl, hcommit⟩ := Prod.mk.inj hcommitted
        exact ⟨rfl, (TransactionResult.committed.inj hcommit).symm, fun hon => absurd hon hoff⟩

/-- A transaction that is committed was accepted and ran to its end. -/
theorem exists_run_of_committed {queuedAt : Nat} {change : Change} {next : Store} {commit : Commit}
    (hcommitted : store.process environment queuedAt change = (next, .committed commit)) :
    ∃ checked outcome,
      change.validate environment.config store.workspace queuedAt = .ok checked ∧
      checked.run environment store.workspace = .ok outcome ∧
      next.workspace = outcome.workspace := by
  obtain ⟨checked, outcome, hvalid, hrun, hworkspace, -⟩ := exists_outcome_of_committed hcommitted
  exact ⟨checked, outcome, hvalid, hrun, hworkspace⟩

/-- A resync that succeeds found the file, brought it up to date with its own text, and kept what that
came to if anything was different. -/
theorem exists_of_resync {next : Store} {path : Path} {mutations : Nat}
    (hresync : store.resync environment path = .ok (mutations, next)) :
    ∃ found file pass outcome, Path.inProject? environment.config.root path = some found ∧
      store.workspace.file? found = some file ∧
      (Pass.ofWorkspace store.workspace).applyText environment found file.text [] = .ok pass ∧
      pass.converge = .ok outcome ∧ mutations = outcome.delta.mutationCount ∧
      next = if mutations = 0 then store else { store with workspace := outcome.workspace } := by
  rw [resync] at hresync
  split at hresync
  · cases hresync
  · cases hresync
  · rename_i found file hfound
    obtain ⟨inside, hinside, hpair⟩ := Option.map_eq_some_iff.1 hfound
    obtain ⟨rfl, hfile⟩ := Prod.mk.inj hpair
    obtain ⟨pass, happly, hrest⟩ := exists_of_bind_eq_ok hresync
    obtain ⟨outcome, hconverge, hrest⟩ := exists_of_bind_eq_ok hrest
    refine ⟨inside, file, pass, outcome, hinside, hfile, happly, hconverge, ?_⟩
    dsimp only at hrest
    split at hrest
    · rename_i hnone
      obtain ⟨rfl, rfl⟩ := Prod.mk.inj (Except.ok.inj hrest)
      exact ⟨hnone.symm, rfl⟩
    · rename_i hsome
      obtain ⟨rfl, rfl⟩ := Prod.mk.inj (Except.ok.inj hrest)
      exact ⟨rfl, (if_neg hsome).symm⟩

/-- A file is brought up to date with its own text, and nothing waits afterwards. -/
theorem exists_resynced (hsound : store.workspace.Sound environment) {path : Path}
    {file : SourceFile} (hfile : store.workspace.file? path = some file) :
    ∃ pass outcome, (Pass.ofWorkspace store.workspace).applyText environment path file.text [] =
        .ok pass ∧ pass.converge = .ok outcome ∧ outcome.workspace.Sound environment ∧
      outcome.workspace.Tended := by
  obtain ⟨hmem, rfl⟩ := Workspace.file?_mem hfile
  obtain ⟨put, pass, hrun, happlied⟩ := Pass.exists_applyText (Pass.sound_ofWorkspace hsound)
    (hsound.ordered.normal file hmem)
    (Pass.isSupported_of_current (hsound.drawn file hmem not_false).2) file.text []
  have hstands : pass.workspace.Stands environment (fun _ => False) (· ∈ pass.bind) :=
    (happlied.stands (Pass.stands_ofWorkspace hsound)).mono (fun _ _ h => h.1) fun _ _ h => h
  obtain ⟨outcome, hconverge, hconverged⟩ := Pass.exists_converge hstands
  exact ⟨pass, outcome, hrun, hconverge, hconverged.sound, hconverged.tended⟩

theorem kept_resync (hkept : store.Kept environment) {next : Store} {path : Path} {mutations : Nat}
    (hresync : store.resync environment path = .ok (mutations, next)) : next.Kept environment := by
  obtain ⟨found, file, pass, outcome, -, hfile, happly, hconverge, -, rfl⟩ :=
    exists_of_resync hresync
  obtain ⟨_, _, happly', hconverge', hsound, htended⟩ := exists_resynced hkept.sound hfile
  obtain rfl := Except.ok.inj (happly.symm.trans happly')
  obtain rfl := Except.ok.inj (hconverge.symm.trans hconverge')
  split
  · exact hkept
  · exact ⟨hsound, htended⟩

/-- **The invariant holds in every reachable store.** -/
theorem Reachable.kept (hreachable : store.Reachable environment) : store.Kept environment := by
  induction hreachable with
  | empty disk => exact ⟨Workspace.sound_empty environment, by rintro _ _ ⟨⟩⟩
  | @build sources workspace disk hbuild =>
    obtain ⟨built, hrun, hsettled, -⟩ := Workspace.exists_ofSources environment sources
    rw [hbuild] at hrun
    obtain rfl := Except.ok.inj hrun
    exact ⟨hsettled.sound, hsettled.tended⟩
  | process _ queuedAt change ih => exact kept_process ih queuedAt change
  | resync _ hresync ih => exact kept_resync ih hresync

theorem exists_commit_of_isCommitted {answer : Store × TransactionResult}
    (hcommitted : answer.2.isCommitted) : ∃ commit, answer = (answer.1, .committed commit) := by
  obtain ⟨next, result⟩ := answer
  cases result with
  | committed commit => exact ⟨commit, rfl⟩
  | rejected => cases hcommitted

/-! ### A file and one that imports it -/

namespace Importing

/-- A named node of a tree without faults. -/
def node (kind : String) (range : ByteRange) (field : Option String) (children : List Tree) :
    Tree :=
  ⟨kind, true, false, false, false, range, field, children⟩

/-- The import of a name from a module of one letter by default, and a variable. -/
def readPython (text : String) : Tree :=
  if text = "f = 1\n" then
    node "module" ⟨0, 6⟩ none
      [node "assignment" ⟨0, 5⟩ none [node "identifier" ⟨0, 1⟩ (some "left") []]]
  else
    node "module" ⟨0, 16⟩ none [node "import_from_statement" ⟨0, 15⟩ none
      [node "dotted_name" ⟨5, 6⟩ (some "module_name") [],
        node "dotted_name" ⟨14, 15⟩ (some "name") []]]

def python : Environment := ⟨{}, fun _ => readPython⟩

/-- A file and one that imports it or its symbol. -/
def imported (environment : Environment) (file importer : Source) : Store :=
  let first := (process environment {} 0 (.add file.path file.text)).1
  (process environment first 1 (.add importer.path importer.text)).1

/-- A file and one that imports it, with another file beside them. -/
def importedBeside (environment : Environment) (file importer other : Source) : Store :=
  (process environment (imported environment file importer) 2 (.add other.path other.text)).1

/-- What the imports of a file stand for. -/
def bindings (store : Store) (path : Path) : Option (List (NodeId × Option Binding)) :=
  (store.workspace.file? path).map fun file =>
    file.imports.map fun id => (id, store.workspace.bindingAt? id)

theorem reachable_imported (environment : Environment) (file importer : Source) :
    (imported environment file importer).Reachable environment := by
  rw [imported]
  exact .process (.process (.empty {}) 0 _) 1 _

theorem reachable_importedBeside (environment : Environment) (file importer other : Source) :
    (importedBeside environment file importer other).Reachable environment :=
  .process (reachable_imported environment file importer) 2 _

end Importing

open Importing

/-- A transaction that is committed was accepted, and the texts afterwards are the ones it asks for. -/
theorem Reachable.updates (hreachable : store.Reachable environment) {queuedAt : Nat}
    {change : Change} {next : Store} {commit : Commit}
    (hcommitted : store.process environment queuedAt change = (next, .committed commit)) :
    ∃ checked, change.validate environment.config store.workspace queuedAt = .ok checked ∧
      checked.Updates environment.config store.workspace next.workspace := by
  obtain ⟨checked, outcome, hvalid, hrun, hworkspace⟩ := exists_run_of_committed hcommitted
  obtain ⟨found, hfound, -, -, -, hupdates⟩ :=
    Change.exists_run hreachable.kept.sound (Change.admitted_of_validate hvalid)
  obtain rfl := Except.ok.inj (hfound.symm.trans hrun)
  exact ⟨checked, hvalid, hworkspace ▸ hupdates⟩

/-- **A transaction that validation accepts is committed**: none of its steps fails, what is read by
position has its place before and after, the check passes, the commit gets the next number, and the
texts are the ones the change asks for. -/
theorem process_commits (hreachable : store.Reachable environment)
    (hdisk : environment.config.writeThrough = false) {queuedAt : Nat} {change checked : Change}
    (hvalid : change.validate environment.config store.workspace queuedAt = .ok checked) :
    ∃ outcome, checked.run environment store.workspace = .ok outcome ∧
      store.process environment queuedAt change =
        ({ store with workspace := outcome.workspace }, .committed (commitOf outcome)) ∧
      (∀ file ∈ store.workspace.files, file.Parallel) ∧
      (∀ file ∈ outcome.workspace.files, file.Parallel) ∧
      outcome.workspace.check = .ok () ∧
      (commitOf outcome).sequence = store.workspace.sequence + 1 ∧
      outcome.workspace.sequence = store.workspace.sequence + 1 ∧
      checked.Updates environment.config store.workspace outcome.workspace := by
  have hkept := hreachable.kept
  obtain ⟨outcome, hrun, hsound, -, hsequence, hupdates⟩ :=
    Change.exists_run hkept.sound (Change.admitted_of_validate hvalid)
  refine ⟨outcome, hrun, ?_, hkept.sound.parallel, hsound.parallel, hsound.check_eq_ok, hsequence,
    hsequence, hupdates⟩
  rw [process, hvalid]
  simp only [apply, hrun, hdisk, Bool.false_eq_true, if_false]

/-- A file moves, and the one that imports it is respelled. -/
theorem process_commits_moved :
    let store := imported python ⟨⟨"a.py"⟩, "f = 1\n"⟩ ⟨⟨"b.py"⟩, "from a import f\n"⟩
    let rename : Change := .rename ⟨"a.py"⟩ ⟨"c.py"⟩
    ∃ outcome, process python store 2 rename =
        ({ store with workspace := outcome.workspace }, .committed (commitOf outcome)) ∧
      outcome.workspace.check = .ok () ∧ outcome.workspace.sequence = 3 ∧
      outcome.workspace.text? ⟨"a.py"⟩ = none ∧
      outcome.workspace.text? ⟨"b.py"⟩ = some "from c import f\n" ∧
      outcome.workspace.text? ⟨"c.py"⟩ = some "f = 1\n" := by
  intro store rename
  obtain ⟨hvalid, hnumber, htext, himporter, hrespelled⟩ :
      rename.validate python.config store.workspace 2 = .ok rename ∧
        store.workspace.sequence = 2 ∧ store.workspace.text? ⟨"a.py"⟩ = some "f = 1\n" ∧
        ⟨"b.py"⟩ ∈ store.workspace.importersOf ⟨"a.py"⟩ ∧
        ((store.workspace.file? ⟨"b.py"⟩).map fun importer => (Replacement.applyAll importer.text
          (store.workspace.importerReplacements python.config ⟨"a.py"⟩ ⟨"c.py"⟩ importer)).1) =
            some "from c import f\n" := by decide +kernel
  obtain ⟨outcome, -, hprocess, -, -, hcheck, -, hsequence, -, hgone, hmoved, hothers⟩ :=
    process_commits (reachable_imported ..) rfl hvalid
  have himports := hothers ⟨"b.py"⟩ (by decide) (by decide)
  rw [if_pos himporter, hrespelled] at himports
  exact ⟨outcome, hprocess, hcheck, hsequence.trans (congrArg (· + 1) hnumber), hgone, himports,
    hmoved.trans htext⟩

/-- **Every reachable workspace has the structure of its files**: nodes and lists go along with the
facts, every node has one owner, and the edges inside a file are the ones it calls for. -/
theorem structured_of_reachable (hreachable : store.Reachable environment) :
    store.workspace.Structured :=
  hreachable.kept.sound.structured

/-- A file lists its variable, and another the import of it. -/
theorem structured_of_reachable_imported :
    let store := imported python ⟨⟨"a.py"⟩, "f = 1\n"⟩ ⟨⟨"b.py"⟩, "from a import f\n"⟩
    (store.workspace.files.map fun file => (file.symbols, file.imports)) = [([2], []), ([], [4])] ∧
      store.workspace.Structured :=
  ⟨by decide +kernel, structured_of_reachable (reachable_imported ..)⟩

/-- **In every reachable workspace bindings and edges go together**: an import stands for what its
one edge leads to, and the outside modules are the ones that something imports. -/
theorem coherent_of_reachable (hreachable : store.Reachable environment) :
    store.workspace.Coherent :=
  hreachable.kept.sound.coherent hreachable.kept.tended

/-- One import leads to a variable, and another out of the project. -/
theorem coherent_of_reachable_imported :
    let store := importedBeside python ⟨⟨"a.py"⟩, "f = 1\n"⟩ ⟨⟨"b.py"⟩, "from a import f\n"⟩
      ⟨⟨"c.py"⟩, "from m import f\n"⟩
    bindings store ⟨"b.py"⟩ = some [(4, some (.resolved 2))] ∧
      bindings store ⟨"c.py"⟩ = some [(6, some (.external "m"))] ∧ store.workspace.Coherent := by
  intro store
  obtain ⟨hresolved, hexternal⟩ : bindings store ⟨"b.py"⟩ = some [(4, some (.resolved 2))] ∧
      bindings store ⟨"c.py"⟩ = some [(6, some (.external "m"))] := by decide +kernel
  exact ⟨hresolved, hexternal, coherent_of_reachable (reachable_importedBeside ..)⟩

end Store

end CodeGraph
