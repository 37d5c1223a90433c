import CodeGraph.Proofs.Transaction.Outlook
import CodeGraph.Proofs.Transaction.Spare
import CodeGraph.Proofs.Workspace.Fresh

/-!
# A workspace and a build of its files

A workspace whose imports stand for what they resolve to, and whose uses are the ones its files call
for, has the edges of a workspace that is built from its files at once. It stays so by transactions
that do again whatever they make wrong. An edit may leave an import behind, though: what a file exposes
is not all in its signature.
-/

namespace CodeGraph

namespace Workspace

variable {environment : Environment} {workspace : Workspace}

/-- Sources at paths that all differ are all kept. -/
theorem dedup_eq_self {sources : List Source} (hsorted : sources.Pairwise fun first second =>
      first.path.le second.path ∧ first.path ≠ second.path) :
    sources.foldr (fun head rest => head :: rest.dropWhile fun next => next.path = head.path) [] =
      sources := by
  induction sources with
  | nil => rfl
  | cons head rest ih =>
    obtain ⟨hhead, hrest⟩ := List.pairwise_cons.1 hsorted
    rw [List.foldr_cons, ih hrest]
    cases rest with
    | nil => rfl
    | cons next rest =>
      have hne : next.path ≠ head.path := (hhead next List.mem_cons_self).2.symm
      rw [List.dropWhile_cons_of_neg (by simpa using hne)]

/-- A build takes the sources of a workspace as they are. -/
theorem Sound.chosenSources_eq (hsound : workspace.Sound environment) :
    chosenSources environment.config workspace.sources = workspace.sources := by
  have hfile : ∀ source ∈ workspace.sources, ∃ file ∈ workspace.files,
      source.path = file.path := fun source hsource => by
    obtain ⟨file, hfile, rfl⟩ := List.mem_map.1 hsource
    exact ⟨file, hfile, rfl⟩
  have hinside : (workspace.sources.filterMap fun source =>
      (Path.inProject? environment.config.root source.path).map fun path =>
        { source with path }) = workspace.sources := by
    refine (List.filterMap_congr fun source hsource => ?_).trans List.filterMap_some
    obtain ⟨file, hmem, hpath⟩ := hfile source hsource
    have hnormal : source.path.IsNormal := hpath ▸ hsound.ordered.normal file hmem
    rw [hnormal.inProject?_eq, Option.map_some]
  have hsupported : (workspace.sources.filter fun source =>
      (Language.ofPath source.path).isSupported) = workspace.sources := by
    refine List.filter_eq_self.2 fun source hsource => ?_
    obtain ⟨file, hmem, hpath⟩ := hfile source hsource
    rw [hpath]
    exact Pass.isSupported_of_current (hsound.drawn file hmem not_false).2
  have hsorted := hsound.sources_sorted
  rw [chosenSources, hinside, hsupported,
    List.mergeSort_of_pairwise (hsorted.imp fun h => h.1), dedup_eq_self hsorted]

/-- The text at a path is the one that a build finds there. -/
theorem Sound.text?_eq (hsound : workspace.Sound environment) (path : Path) :
    workspace.text? path =
      (workspace.sources.reverse.find? fun source => source.path = path).map Source.text := by
  have hnodup : (workspace.sources.reverse.map Source.path).Nodup := by
    rw [List.map_reverse, List.nodup_reverse]
    exact List.pairwise_map.2 (hsound.sources_sorted.imp And.right)
  refine Option.ext fun text => ?_
  rw [Option.map_eq_some_iff]
  constructor
  · intro htext
    refine ⟨⟨path, text⟩, (find?_key_iff hnodup).2 ⟨List.mem_reverse.2 ?_, rfl⟩, rfl⟩
    exact (mem_sources hsound).2 htext
  · rintro ⟨source, hsource, rfl⟩
    obtain ⟨hmem, rfl⟩ := (find?_key_iff hnodup).1 hsource
    exact (mem_sources hsound).1 (List.mem_reverse.1 hmem)

/-- **A settled workspace has the edges of a build of its files.** -/
theorem Settled.exists_build (hsettled : workspace.Settled environment) :
    ∃ fresh, ofSources environment workspace.sources = .ok fresh ∧
      fresh.Settled environment ∧ fresh.edgeTriples = workspace.edgeTriples := by
  obtain ⟨fresh, hbuild, hfresh, htexts⟩ := exists_ofSources environment workspace.sources
  rw [hsettled.sound.chosenSources_eq] at htexts
  exact ⟨fresh, hbuild, hfresh, edgeTriples_eq_of_texts hfresh hsettled fun path =>
    (htexts path).trans (hsettled.sound.text?_eq path).symm⟩

/-- The edges by what they join, as they come. -/
def triples (workspace : Workspace) : List EdgeTriple :=
  workspace.graph.edges.filterMap fun edge => do
    let source ← workspace.graph.node? edge.source
    let target ← workspace.graph.node? edge.target
    return EdgeTriple.mk edge.kind source.stableKey target.stableKey

theorem mem_edgeTriples_iff {triple : EdgeTriple} :
    triple ∈ workspace.edgeTriples ↔ triple ∈ workspace.triples := by
  rw [edgeTriples, List.mem_mergeSort, List.mem_eraseDups, triples]

/-- An edge that a settled workspace with the same sources does not have is not made by a build. -/
theorem Settled.exists_build_ne (hsettled : workspace.Settled environment) {other : Workspace}
    (hsources : other.sources = workspace.sources) {triple : EdgeTriple}
    (hmem : triple ∈ other.triples) (hnot : triple ∉ workspace.triples) :
    ∃ fresh, ofSources environment other.sources = .ok fresh ∧
      fresh.edgeTriples ≠ other.edgeTriples := by
  obtain ⟨fresh, hbuild, -, hsame⟩ := hsettled.exists_build
  refine ⟨fresh, hsources ▸ hbuild, fun heq => hnot ?_⟩
  rwa [← mem_edgeTriples_iff, ← hsame, heq, mem_edgeTriples_iff]

end Workspace

namespace Change

/-- An edit that others cannot see, or that is passed on because the file exposes imports. -/
def KeepsOutlook (before after : Workspace) : Change → Prop
  | edit path .. => ∃ old new, before.file? path = some old ∧ after.file? path = some new ∧
    new.facts.signature = old.facts.signature ∧ old.KeepsOutlook new
  | add .. | remove _ | rename .. => False

/-- A change whose pass does again what it makes wrong. Its imports are: others can see the change, or
they cannot, or at least every import of a file that is not bound again stands for what it stood for.
And so are the uses: every file that is not linked again calls for those that it called for. -/
structure Attends (environment : Environment) (before : Workspace) (change : Change)
    (after : Workspace) : Prop where
  imports : change.Shows before after ∨ change.KeepsOutlook before after ∨
    ∀ pass, change.steps environment (Pass.ofWorkspace before) = .ok pass →
      ∀ file ∈ after.files, ¬ pass.Awaits file.path →
        after.resolutions file = before.resolutions file
  uses : ∀ pass, change.steps environment (Pass.ofWorkspace before) = .ok pass →
    ∀ file ∈ after.files, ¬ pass.Relinks file.path → ∀ key,
      (key ∈ (after.desiredEdges file).map Edge.key ↔
        key ∈ (before.desiredEdges file).map Edge.key)

/-- What such a change came to is as right as what it began with. -/
theorem Attends.settled {environment : Environment} {workspace : Workspace} {change : Change}
    {outcome : Pass.Outcome} (hattends : change.Attends environment workspace outcome.workspace)
    (hsettled : workspace.Settled environment) (hadmitted : change.Admitted workspace)
    (hrun : change.run environment workspace = .ok outcome) :
    outcome.workspace.Settled environment := by
  have hsound := hsettled.sound
  have hresolved := hsettled.resolved
  obtain ⟨pass, -, -, hconverged⟩ := exists_pass hsound hadmitted hrun
  refine ⟨hconverged.sound, hconverged.tended, ?_,
    linked_run_of_desiredEdges hsound hadmitted hrun hsettled.linked hattends.uses⟩
  obtain hshows | hkeeps | hsame := hattends.imports
  · exact resolved_run hsound hadmitted hresolved hrun hshows
  · cases change with
    | edit path range text base =>
      obtain ⟨old, new, hold, hnew, hsignature, houtlook⟩ := hkeeps
      exact resolved_run_of_keepsOutlook hsound hadmitted hresolved hrun hold hnew hsignature houtlook
    | add | remove | rename => exact hkeeps.elim
  · exact resolved_run_of_resolutions_eq hsound hadmitted hrun hresolved hsame

end Change

namespace Store

variable {environment : Environment} {store : Store}

/-- Stores that nothing is wrong with to begin with, and what transactions lead to from there that are
not committed, or do again whatever they make wrong. -/
inductive Attended (environment : Environment) : Store → Prop
  | start {store : Store} (hreachable : store.Reachable environment)
    (hresolved : ∀ file ∈ store.workspace.files, store.workspace.Resolved file)
    (hlinked : ∀ file ∈ store.workspace.files, store.workspace.Linked file) :
    Attended environment store
  | process {store : Store} (hstore : Attended environment store) (queuedAt : Nat) (change : Change)
    (hattends : (store.process environment queuedAt change).2.isCommitted → ∀ checked,
      change.validate environment.config store.workspace queuedAt = .ok checked →
      checked.Attends environment store.workspace
        (store.process environment queuedAt change).1.workspace) :
    Attended environment (store.process environment queuedAt change).1

/-- Builds are among them. -/
theorem attended_of_build {sources : List Source} {workspace : Workspace} (disk : Disk)
    (hbuild : Workspace.ofSources environment sources = .ok workspace) :
    Attended environment ⟨workspace, disk⟩ := by
  obtain ⟨built, hrun, hsettled, -⟩ := Workspace.exists_ofSources environment sources
  obtain rfl := Except.ok.inj (hrun.symm.trans hbuild)
  exact .start (.build disk hbuild) hsettled.resolved hsettled.linked

/-- Nothing is wrong with any of them. -/
theorem Attended.settled (hattended : Attended environment store) :
    store.workspace.Settled environment := by
  induction hattended with
  | start hreachable hresolved hlinked =>
    exact ⟨hreachable.kept.sound, hreachable.kept.tended, hresolved, hlinked⟩
  | @process store _ queuedAt change hattends ih =>
    obtain hsame | ⟨checked, outcome, hvalid, hrun, hworkspace, hcommitted⟩ :=
      workspace_process environment store queuedAt change
    · exact hsame ▸ ih
    · have hchecked := hattends hcommitted checked hvalid
      rw [hworkspace] at hchecked ⊢
      exact hchecked.settled ih (Change.admitted_of_validate hvalid) hrun

/-- **Transactions that do again whatever they make wrong lead to the edges of a build.** Whatever
sources it began with, and whatever was committed or rejected since, the edges are those of a workspace
that is built at once from the files that are there. -/
theorem edges_as_built (hattended : Attended environment store) :
    ∃ fresh, Workspace.ofSources environment store.workspace.sources = .ok fresh ∧
      fresh.edgeTriples = store.workspace.edgeTriples := by
  obtain ⟨fresh, hbuild, -, hsame⟩ := hattended.settled.exists_build
  exact ⟨fresh, hbuild, hsame⟩

/-! ### A variable that is used -/

namespace Used

open Behind Importing

/-- A use of the variable, where it is made and where it is imported. -/
def parse (text : String) : Tree :=
  let use (range : ByteRange) := node "expression_statement" range none
    [node "identifier" range none []]
  if text = "g = 1\ng\n" then
    node "module" ⟨0, 8⟩ none
      [node "assignment" ⟨0, 5⟩ none [node "identifier" ⟨0, 1⟩ (some "left") []], use ⟨6, 7⟩]
  else if text = "from v import g\ng\n" then
    node "module" ⟨0, 18⟩ none [node "import_from_statement" ⟨0, 15⟩ none
      [node "dotted_name" ⟨5, 6⟩ (some "module_name") [],
        node "dotted_name" ⟨14, 15⟩ (some "name") []], use ⟨16, 17⟩]
  else Behind.parse text

def parsing : Environment := ⟨{}, fun _ => parse⟩

/-- The two files, and between them the wildcard import inside a function. -/
def project : Store :=
  let first := (process parsing {} 0 (.add ⟨"a.py"⟩ "g = 1\ng\n")).1
  let second := (process parsing first 1 (.add ⟨"v.py"⟩ inside)).1
  (process parsing second 2 (.add ⟨"c.py"⟩ "from v import g\ng\n")).1

theorem reachable_project : project.Reachable parsing := by
  rw [project]
  exact .process (.process (.process (.empty {}) 0 _) 1 _) 2 _

/-- The wildcard import is taken out of the function. -/
def edit : Change := .edit ⟨"v.py"⟩ ⟨0, Text.size inside⟩ outside none

def edited : Store × TransactionResult := process parsing project 3 edit

/-- The use of the variable in a file. -/
def useIn (file : String) : EdgeTriple :=
  ⟨.references, "file:" ++ file, "variable:a.py:g@0"⟩

/-- To begin with nothing is wrong. -/
theorem attended_project : Attended parsing project := by
  obtain ⟨hresolved, hlinked⟩ :
      (∀ file ∈ project.workspace.files, project.workspace.Resolved file) ∧
      ∀ file ∈ project.workspace.files, project.workspace.Linked file := by decide +kernel
  exact .start reachable_project hresolved hlinked

end Used

open Used in
/-- The edit keeps the signature, but the file exposes the import from then on. It is passed on, so the
last file comes to use the variable, as in a build. The first one is left alone, with its use. -/
theorem edges_as_built_outside :
    edited.2.isCommitted ∧ useIn "c.py" ∉ project.workspace.triples ∧
      useIn "c.py" ∈ edited.1.workspace.triples ∧ useIn "a.py" ∈ edited.1.workspace.triples ∧
      ∃ fresh, Workspace.ofSources parsing edited.1.workspace.sources = .ok fresh ∧
        fresh.edgeTriples = edited.1.workspace.edgeTriples := by
  obtain ⟨hshown, hvalid, ⟨old, hold, new, hnew, hsignature, hexposes⟩, hpass, hothers⟩ :
      (edited.2.isCommitted ∧ useIn "c.py" ∉ project.workspace.triples ∧
        useIn "c.py" ∈ edited.1.workspace.triples ∧ useIn "a.py" ∈ edited.1.workspace.triples) ∧
      edit.validate parsing.config project.workspace 3 = .ok edit ∧
      (∃ old ∈ project.workspace.file? ⟨"v.py"⟩, ∃ new ∈ edited.1.workspace.file? ⟨"v.py"⟩,
        new.facts.signature = old.facts.signature ∧ new.exposesImports) ∧
      ((edit.steps parsing (Pass.ofWorkspace project.workspace)).toOption.any fun pass => decide (
        ⟨"v.py"⟩ ∈ pass.bind ∧ ⟨"c.py"⟩ ∈ pass.watchersOf ⟨"v.py"⟩ ∧
        (pass.workspace.file? ⟨"v.py"⟩).any SourceFile.exposesImports)) ∧
      ∀ file ∈ edited.1.workspace.files, file.path = ⟨"c.py"⟩ ∨
        edited.1.workspace.desiredEdges file = project.workspace.desiredEdges file := by
    decide +kernel
  have hattends : edit.Attends parsing project.workspace edited.1.workspace := by
    refine ⟨.inr (.inl ⟨old, new, hold, hnew, hsignature, .inl hexposes⟩),
      fun pass hsteps file hfile hrelinks key => ?_⟩
    rw [hsteps] at hpass
    obtain ⟨hbind, hwatches, hexposed⟩ := of_decide_eq_true hpass
    obtain hpath | hsame := hothers file hfile
    · exact absurd (.inr ⟨⟨"v.py"⟩, .inr ⟨.waiting hbind, hexposed⟩, hpath ▸ hwatches⟩) hrelinks
    · exact iff_of_eq (congrArg (fun edges => key ∈ edges.map Edge.key) hsame)
  have hattended : Attended parsing edited.1 := by
    rw [edited] at hattends ⊢
    refine attended_project.process 3 edit fun _ checked hchecked => ?_
    exact Except.ok.inj (hvalid.symm.trans hchecked) ▸ hattends
  exact ⟨hshown.1, hshown.2.1, hshown.2.2.1, hshown.2.2.2, edges_as_built hattended⟩

/-! ### An import that is left behind -/

namespace Behind

/-- The edge of the import in the last file to the variable in the first. -/
def throughImport : EdgeTriple :=
  ⟨.imports, "import:c.py:g@0", "variable:a.py:g@0"⟩

/-- With the wildcard import inside the function, nothing is left behind, and the last import leads
nowhere. -/
theorem around_inside :
    (∀ file ∈ (around inside).workspace.files, (around inside).workspace.Resolved file) ∧
      (∀ file ∈ (around inside).workspace.files, (around inside).workspace.Linked file) ∧
      throughImport ∉ (around inside).workspace.triples := by decide +kernel

end Behind

open Behind

/-- An edit that takes the wildcard import into the function leaves the signature as it is, so what
the last file imports through it is not bound again and keeps an edge that a build does not make. -/
theorem edges_not_as_built :
    let edit := Change.edit ⟨"v.py"⟩ ⟨0, Text.size outside⟩ inside none
    let answer := process parsing (around outside) 3 edit
    answer.2.isCommitted ∧ ∃ fresh,
      Workspace.ofSources parsing answer.1.workspace.sources = .ok fresh ∧
        fresh.edgeTriples ≠ answer.1.workspace.edgeTriples := by
  intro edit answer
  obtain ⟨hresolved, hlinked, hgone⟩ := around_inside
  have hkept := (reachable_around inside).kept
  have hsettled : (around inside).workspace.Settled parsing :=
    ⟨hkept.sound, hkept.tended, hresolved, hlinked⟩
  obtain ⟨hcommitted, hsources, hstays⟩ : answer.2.isCommitted ∧
      answer.1.workspace.sources = (around inside).workspace.sources ∧
      throughImport ∈ answer.1.workspace.triples := by decide +kernel
  exact ⟨hcommitted, hsettled.exists_build_ne hsources hstays hgone⟩

end Store

end CodeGraph
