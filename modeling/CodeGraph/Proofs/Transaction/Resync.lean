import CodeGraph.Proofs.Transaction.Outlook
import CodeGraph.Proofs.Workspace.Replay

/-!
# A resync after a commit finds nothing to do

A pass binds and links all files that it reaches, and it reaches a file that it installs. A resync of
that file reaches no others than the pass did, finds each of them as it should be, and records nothing.
-/

namespace CodeGraph

/-! ### Guesses are references -/

namespace Store

variable {environment : Environment} {store : Store}

/-- **In every reachable store only references rest on anything but certain evidence.** -/
theorem Reachable.plain (hreachable : store.Reachable environment) :
    store.workspace.graph.Plain := by
  induction hreachable with
  | empty disk => exact nofun
  | @build sources workspace disk hbuild =>
    obtain ⟨pass, hloop, hrest⟩ := exists_of_bind_eq_ok hbuild
    obtain ⟨outcome, hconverge, hworkspace⟩ := exists_of_bind_eq_ok hrest
    obtain rfl := Except.ok.inj hworkspace
    have hevolves : (Pass.ofWorkspace Workspace.empty).workspace.graph.Evolves Edge.IsPlain
        pass.workspace.graph := rel_of_foldlM_eq_ok (fun first second : Pass =>
      first.workspace.graph.Evolves Edge.IsPlain second.workspace.graph) (fun state => .refl _)
      .trans (fun source _ state next => Pass.evolves_applyText) hloop
    exact Pass.plain_converge (hevolves.plain nofun) hconverge
  | @process store _ queuedAt change ih =>
    obtain hsame | ⟨checked, outcome, -, hrun, hworkspace, -⟩ :=
      workspace_process environment store queuedAt change
    · exact hsame ▸ ih
    · obtain ⟨pass, hsteps, hconverge⟩ := exists_of_bind_eq_ok hrun
      have hbegun : (Pass.ofWorkspace store.workspace).workspace.graph.Plain := ih
      exact hworkspace ▸ Pass.plain_converge ((Change.evolves_steps hsteps).plain hbegun) hconverge
  | @resync store next path mutations _ hresync ih =>
    obtain ⟨found, file, pass, outcome, -, -, happly, hconverge, -, rfl⟩ :=
      exists_of_resync hresync
    have hbegun : (Pass.ofWorkspace store.workspace).workspace.graph.Plain := ih
    split
    · exact ih
    · exact Pass.plain_converge ((Pass.evolves_applyText happly).plain hbegun) hconverge

end Store

/-! ### What a pass lists -/

namespace Pass

variable {environment : Environment} {pass next : Pass}

/-- A pass that goes on listing what is to be bound, and all of it to be linked as well. -/
structure Lists (before after : Pass) : Prop where
  bind : before.bind ⊆ after.bind
  link : before.bind ⊆ before.link → after.bind ⊆ after.link

theorem Lists.refl (pass : Pass) : pass.Lists pass :=
  ⟨fun _ h => h, fun h => h⟩

theorem Lists.trans {first second third : Pass} (hfirst : first.Lists second)
    (hsecond : second.Lists third) : first.Lists third :=
  ⟨fun _ h => hsecond.bind (hfirst.bind h), fun h => hsecond.link (hfirst.link h)⟩

theorem lists_applyText {path : Path} {text : String} {edits : List TextEdit}
    (happly : applyText environment pass path text edits = .ok next) :
    pass.Lists next ∧ path ∈ next.bind := by
  obtain ⟨_, _, -, hinstalled⟩ := exists_installed_of_applyText happly
  refine ⟨⟨?_, fun hlink => ?_⟩, ?_⟩ <;> rw [hinstalled.bind]
  · exact fun other hother => PathSet.mem_insert.2 (.inr hother)
  · intro other hother
    rw [hinstalled.link]
    exact PathSet.mem_insert.2 ((PathSet.mem_insert.1 hother).imp_right fun h => hlink h)
  · exact PathSet.mem_insert.2 (.inl rfl)

theorem lists_respell {entry : Path × List Replacement}
    (hrespell : respell environment pass entry = .ok next) : pass.Lists next := by
  obtain rfl | ⟨file, applied, -, happly, rfl⟩ := respell_cases hrespell
  · exact .refl next
  · obtain ⟨hlists, -⟩ := lists_applyText happly
    exact ⟨hlists.bind, hlists.link⟩

theorem lists_rename {source target : Path}
    (hrename : pass.rename environment source target = .ok next) :
    pass.Lists next ∧ target ∈ next.bind := by
  obtain ⟨file, moved, applied, -, hrelocate, happly, hloop⟩ := rename_cases hrename
  obtain ⟨graph, -, hmoved⟩ := exists_of_bind_eq_ok hrelocate
  obtain rfl := Except.ok.inj hmoved
  obtain ⟨hlists, htarget⟩ := lists_applyText happly
  have hrespelled := rel_of_foldlM_eq_ok Lists .refl .trans
    (fun entry _ state next => lists_respell) hloop
  exact ⟨Lists.trans ⟨hlists.bind, hlists.link⟩ ⟨hrespelled.bind, hrespelled.link⟩,
    hrespelled.bind htarget⟩

end Pass

namespace Change

/-- The path whose text a change makes. -/
def installs? : Change → Option Path
  | edit path .. => some path
  | add path _ => some path
  | remove _ => none
  | rename _ target => some target

variable {environment : Environment} {workspace : Workspace} {pass : Pass} {change checked : Change}

/-- The steps of a change list the file that they install, and list nothing to be bound only. -/
theorem lists_steps
    (hsteps : change.steps environment (Pass.ofWorkspace workspace) = .ok pass) :
    pass.bind ⊆ pass.link ∧ ∀ path, change.installs? = some path → path ∈ pass.bind := by
  have hnothing : (Pass.ofWorkspace workspace).bind ⊆ (Pass.ofWorkspace workspace).link :=
    fun _ h => h
  cases takes_of_steps hsteps with
  | edit _ _ happly | add happly =>
    obtain ⟨hlists, htarget⟩ := Pass.lists_applyText happly
    exact ⟨hlists.link hnothing, fun path hpath => Option.some.inj hpath ▸ htarget⟩
  | remove hremove =>
    obtain ⟨file, graph, -, -, rfl⟩ := Pass.remove_cases hremove
    exact ⟨fun _ h => h, fun path hpath => by cases hpath⟩
  | rename hrename =>
    obtain ⟨hlists, htarget⟩ := Pass.lists_rename hrename
    exact ⟨hlists.link hnothing, fun path hpath => Option.some.inj hpath ▸ htarget⟩

theorem exists_file_of_updates {config : Config} {after : Workspace}
    (hupdates : change.Updates config workspace after) {path : Path}
    (hpath : change.installs? = some path) : ∃ file, after.file? path = some file := by
  have htext : ∃ text, after.text? path = some text := by
    cases change with
    | edit target range text base =>
      obtain ⟨⟨head, removed, tail, -, -, -, htext⟩, -⟩ := hupdates
      exact ⟨_, Option.some.inj hpath ▸ htext⟩
    | add target content => exact ⟨content, Option.some.inj hpath ▸ hupdates.2.1⟩
    | remove target => cases hpath
    | rename source target =>
      obtain ⟨hsource, -, htext, -⟩ := hupdates
      obtain ⟨text, hsource⟩ := Option.isSome_iff_exists.1 hsource
      exact ⟨text, Option.some.inj hpath ▸ htext.trans hsource⟩
  obtain ⟨text, htext⟩ := htext
  obtain ⟨file, hfile, -⟩ := Option.map_eq_some_iff.1 htext
  exact ⟨file, hfile⟩

/-- Validation finds the path inside the project. -/
theorem inProject?_of_installs? {config : Config} {queuedAt : Nat}
    (hvalid : change.validate config workspace queuedAt = .ok checked) {path : Path}
    (hpath : change.installs? = some path) : ∃ found,
      Path.inProject? config.root path = some found ∧ checked.installs? = some found := by
  cases change with
  | edit target range text base =>
    obtain rfl := Option.some.inj hpath
    obtain ⟨inside, hinside, hrest⟩ := exists_of_bind_eq_ok hvalid
    obtain ⟨file, -, hrest⟩ := exists_of_bind_eq_ok hrest
    obtain ⟨⟨⟩, -, hrest⟩ := exists_of_bind_eq_ok hrest
    obtain ⟨⟨⟩, -, hrest⟩ := exists_of_bind_eq_ok hrest
    exact ⟨inside, inProject?_of_checkPath hinside, Except.ok.inj hrest ▸ rfl⟩
  | add target content =>
    obtain rfl := Option.some.inj hpath
    obtain ⟨inside, hinside, hrest⟩ := exists_of_bind_eq_ok hvalid
    obtain ⟨⟨⟩, -, hrest⟩ := exists_of_bind_eq_ok hrest
    obtain ⟨⟨⟩, -, hrest⟩ := exists_of_bind_eq_ok hrest
    exact ⟨inside, inProject?_of_checkPath hinside, Except.ok.inj hrest ▸ rfl⟩
  | remove target => cases hpath
  | rename source target =>
    obtain rfl := Option.some.inj hpath
    obtain ⟨_, -, hrest⟩ := exists_of_bind_eq_ok hvalid
    obtain ⟨inside, hinside, hrest⟩ := exists_of_bind_eq_ok hrest
    obtain ⟨file, -, hrest⟩ := exists_of_bind_eq_ok hrest
    obtain ⟨⟨⟩, -, hrest⟩ := exists_of_bind_eq_ok hrest
    obtain ⟨⟨⟩, -, hrest⟩ := exists_of_bind_eq_ok hrest
    exact ⟨inside, inProject?_of_checkPath hinside, Except.ok.inj hrest ▸ rfl⟩

end Change

/-! ### What a pass leaves quiet -/

/-- **What a pass reached is quiet when it has converged.** -/
theorem Pass.exists_quiet {environment : Environment} {pass : Pass} {outcome : Outcome}
    (hstands : pass.workspace.Stands environment (fun _ => False) (· ∈ pass.bind))
    (hlisted : pass.bind ⊆ pass.link) (hconverge : pass.converge = .ok outcome) :
    ∃ inside, (∀ path ∈ pass.bind, inside path) ∧ outcome.workspace.Quiet inside := by
  obtain ⟨found, hfound, hconverged⟩ := exists_converge hstands
  obtain rfl := Except.ok.inj (hfound.symm.trans hconverge)
  obtain ⟨hfiles, himporters, -⟩ := evolves_converge hconverge
  obtain ⟨passed, reached, hclosed, hexact⟩ := hconverged.closed
  refine ⟨reached, hclosed.bind, fun file hfile => ?_, fun file hfile hreached => ?_,
    fun file hfile hreached hexposes other hother => ?_⟩ <;> rw [hfiles] at hfile
  · exact hclosed.resolved file hfile
  · obtain hbind | hexact := hexact file hfile hreached
    · exact hconverged.exact hfile (hlisted hbind)
    · exact hexact
  · have hpassed := (hclosed.exposing file hfile hreached hexposes).resolve_right List.not_mem_nil
    have hsame : found.workspace.importersOf file.path = pass.workspace.importersOf file.path := by
      simp only [Workspace.importersOf, Workspace.indexedAt, himporters]
    exact hclosed.importers file.path hpassed other (hsame ▸ hother)

namespace Store

variable {environment : Environment} {store next : Store}

/-- A resync that records nothing: the pass over the file converges with an empty record, and the store
stays. -/
def Idle (environment : Environment) (store : Store) (path : Path) : Prop :=
  ∃ found file pass outcome, Path.inProject? environment.config.root path = some found ∧
    store.workspace.file? found = some file ∧
    (Pass.ofWorkspace store.workspace).applyText environment found file.text [] = .ok pass ∧
    pass.converge = .ok outcome ∧ outcome.delta = {} ∧
    store.resync environment path = .ok (0, store)

theorem idle_of_quiet (hkept : store.Kept environment) (hplain : store.workspace.graph.Plain)
    {inside : Path → Prop} (hquiet : store.workspace.Quiet inside) {path found : Path}
    (hpath : Path.inProject? environment.config.root path = some found) (hinside : inside found)
    {file : SourceFile} (hfile : store.workspace.file? found = some file) :
    store.Idle environment path := by
  obtain ⟨hmem, rfl⟩ := Workspace.file?_mem hfile
  have hbegun := Pass.sound_ofWorkspace hkept.sound
  obtain ⟨pass, happly, hreapplied⟩ := Pass.exists_reapply hbegun hmem hplain
  have hsound := hreapplied.adjusted.stands hbegun
  have hquietPass : pass.workspace.Quiet inside :=
    (hquiet.adjusted hkept.sound (Pass.adjusted_ofWorkspace hkept.sound) fun _ => rfl).adjusted
      hbegun hreapplied.adjusted fun key => by rw [hreapplied.graph]
  have htended : pass.workspace.Tended := by
    intro key module hmodule
    rw [hreapplied.externals] at hmodule
    rw [hreapplied.graph]
    exact hkept.tended key module hmodule
  have hlisted : ∀ path ∈ PathSet.insert file.path [], inside path := fun path hpath => by
    obtain rfl | hpath := PathSet.mem_insert.1 hpath
    · exact hinside
    · cases hpath
  have hwithin : pass.Within pass.workspace inside :=
    ⟨rfl, hreapplied.bind ▸ hlisted, hreapplied.link ▸ hlisted, hreapplied.changed ▸ nofun⟩
  obtain ⟨outcome, hconverge, hdelta⟩ := hwithin.converge hsound hquietPass
    (hreapplied.graph ▸ hplain) htended
  have hnothing : outcome.delta = {} := by
    rw [hdelta, hreapplied.graph]
    rfl
  refine ⟨file.path, file, pass, outcome, hpath, hfile, happly, hconverge, hnothing, ?_⟩
  rw [resync, hpath, Option.map_some, hfile]
  simp only [happly, ok_bind, hconverge, hnothing]
  rfl

/-- A step that makes a text the content of a path: a transaction that is committed, or a resync that
repairs something. -/
inductive Installs (environment : Environment) (path : Path) (store next : Store) : Prop
  | process {queuedAt : Nat} {change : Change} {commit : Commit}
    (hpath : change.installs? = some path)
    (hcommitted : store.process environment queuedAt change = (next, .committed commit)) :
    Installs environment path store next
  | resync {mutations : Nat} (hrepair : mutations ≠ 0)
    (hresync : store.resync environment path = .ok (mutations, next)) :
    Installs environment path store next

/-- **A resync of what has just been installed records nothing**, whatever the state of the other
files. -/
theorem idle_of_installs (hreachable : store.Reachable environment) {path : Path}
    (hinstalls : store.Installs environment path next) : next.Idle environment path := by
  have hsound := hreachable.kept.sound
  cases hinstalls with
  | @process queuedAt change commit hpath hcommitted =>
    have hnext : next = (store.process environment queuedAt change).1 := by rw [hcommitted]
    have hreachableNext : next.Reachable environment := hnext ▸ hreachable.process queuedAt change
    obtain ⟨checked, outcome, hvalid, hrun, hworkspace⟩ := exists_run_of_committed hcommitted
    obtain ⟨found, hfound, hinstalls⟩ := Change.inProject?_of_installs? hvalid hpath
    obtain ⟨pass, hsteps, hstepped⟩ :=
      Change.exists_steps hsound (Change.admitted_of_validate hvalid)
    obtain ⟨pass', hsteps', hconverge⟩ := exists_of_bind_eq_ok hrun
    obtain rfl := Except.ok.inj (hsteps.symm.trans hsteps')
    obtain ⟨hlisted, hbind⟩ := Change.lists_steps hsteps
    obtain ⟨inside, hinside, hquiet⟩ := Pass.exists_quiet hstepped.stands hlisted hconverge
    obtain ⟨file, hfile⟩ := Change.exists_file_of_updates hstepped.updates hinstalls
    have hfileNext : next.workspace.file? found = some file := by
      rwa [hworkspace, Workspace.file?, (Pass.evolves_converge hconverge).1]
    exact idle_of_quiet hreachableNext.kept hreachableNext.plain (hworkspace ▸ hquiet) hfound
      (hinside found (hbind found hinstalls)) hfileNext
  | @resync mutations hrepair hresync =>
    have hreachableNext := hreachable.resync hresync
    obtain ⟨found, file, pass, outcome, hfound, hfile, happly, hconverge, -, hnext⟩ :=
      exists_of_resync hresync
    rw [if_neg hrepair] at hnext
    obtain ⟨hmem, rfl⟩ := Workspace.file?_mem hfile
    have hbegun := Pass.sound_ofWorkspace hsound
    obtain ⟨pass', happly', hreapplied⟩ := Pass.exists_reapply hbegun hmem hreachable.plain
    obtain rfl := Except.ok.inj (happly'.symm.trans happly)
    have hstands : pass'.workspace.Stands environment (fun _ => False) (· ∈ pass'.bind) :=
      (hreapplied.adjusted.stands hbegun).mono (fun _ _ h => h) fun _ _ h => h.elim
    obtain ⟨inside, hinside, hquiet⟩ := Pass.exists_quiet hstands
      (by rw [hreapplied.bind, hreapplied.link]; exact fun _ h => h) hconverge
    have hfileNext : next.workspace.file? file.path = some file := by
      rw [hnext, Workspace.file?, (Pass.evolves_converge hconverge).1, hreapplied.adjusted.files]
      exact hfile
    exact idle_of_quiet hreachableNext.kept hreachableNext.plain (hnext ▸ hquiet) hfound
      (hinside _ (by rw [hreapplied.bind]; exact PathSet.mem_insert.2 (.inl rfl))) hfileNext

/-- The edit that takes the wildcard import into the function leaves the import of another file behind.
The file itself, with the function and the import, is up to date. -/
theorem idle_of_installs_behind :
    let store := Behind.around Behind.outside
    let edit := Change.edit ⟨"v.py"⟩ ⟨0, Text.size Behind.outside⟩ Behind.inside none
    let next := (process Behind.parsing store 3 edit).1
    (next.workspace.file? ⟨"v.py"⟩).map (fun file => (file.symbols, file.imports)) =
        some ([4], [5]) ∧
      (∃ file ∈ next.workspace.files, file.path = ⟨"c.py"⟩ ∧ ¬ next.workspace.Resolved file) ∧
      next.Idle Behind.parsing ⟨"v.py"⟩ := by
  intro store edit next
  obtain ⟨hlists, hbehind, hcommits⟩ :
      (next.workspace.file? ⟨"v.py"⟩).map (fun file => (file.symbols, file.imports)) =
        some ([4], [5]) ∧
      (∃ file ∈ next.workspace.files, file.path = ⟨"c.py"⟩ ∧ ¬ next.workspace.Resolved file) ∧
      (process Behind.parsing store 3 edit).2.isCommitted := by decide +kernel
  obtain ⟨commit, hprocess⟩ := exists_commit_of_isCommitted hcommits
  exact ⟨hlists, hbehind,
    idle_of_installs (Behind.reachable_around Behind.outside) (.process rfl hprocess)⟩

end Store

end CodeGraph
