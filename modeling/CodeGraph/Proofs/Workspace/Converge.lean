import CodeGraph.Proofs.Workspace.Check
import CodeGraph.Proofs.Workspace.Evolve
import CodeGraph.Proofs.Workspace.Link
import CodeGraph.Proofs.Workspace.Search
import CodeGraph.Workspace.Converge

/-!
# Passes converge

Binding in rounds, linking, collecting and checking all succeed, and none of them touches the files.
After the first round nothing waits to be bound any more; later rounds only bind again what files see
differently. They end before the rounds run out: each but the first passes on a file that was not passed
on before.
-/

namespace CodeGraph

namespace Workspace

section Adjusted

variable {environment : Environment} {stale pending : Path → Prop} {before after : Workspace}

theorem Adjusted.resolved (hadjusted : before.Adjusted after)
    (hstands : before.Stands environment stale pending) {file : SourceFile}
    (hfile : file ∈ before.files) (hresolved : before.Resolved file) : after.Resolved file := by
  intro entry hentry
  rw [resolutions_eq_of_files hadjusted.files] at hentry
  have hid : entry.1 ∈ file.imports :=
    map_fst_resolutions before (hstands.parallel file hfile) ▸ List.mem_map_of_mem hentry
  rw [bindingAt?, hadjusted.node? file hfile _ (SourceFile.mem_nodes_of_import hid)]
  exact hresolved entry hentry

/-- What no view shows makes no difference. -/
theorem Adjusted.of_sameView (hstands : before.Stands environment stale pending)
    (hgraph : before.graph.SameView after.graph) (hfiles : after.files = before.files)
    (hindexedAt : ∀ place, after.indexedAt place = before.indexedAt place)
    (hexternals : after.externals = before.externals) : before.Adjusted after where
  files := hfiles
  indexedAt := hindexedAt
  sound := hgraph.sound hstands.graph
  node? := fun _ _ id _ => hgraph.node? id
  old := fun id node hnode => (hgraph.node? id).symm.trans hnode
  registered := by
    refine ⟨hexternals ▸ hstands.registered.keyed, fun language name id => ?_,
      fun id node hnode hkind => ?_⟩
    · rw [hexternals, hgraph.node?]
      exact hstands.registered.shown language name id
    · rw [hexternals]
      exact hstands.registered.covered id node ((hgraph.node? id).symm.trans hnode) hkind
  externals := fun _ _ hmodule _ => hexternals ▸ hmodule
  hasEdge := fun key _ _ => by rw [hgraph.hasEdge]
  uses := fun key hkey => (Adjusted.refl hstands).uses key (hgraph.hasEdge key ▸ hkey)

end Adjusted

section BoundFile

variable {environment : Environment} {stale pending : Path → Prop} {before after : Workspace}

/-- A file that is resolved stays so while others are bound, and when it is bound again. -/
theorem BoundFile.resolved_of {path : Path}
    (hbound : BoundFile environment stale pending before path after)
    (hstands : before.Stands environment stale pending) {file : SourceFile}
    (hfile : file ∈ before.files) (hresolved : before.Resolved file) : after.Resolved file := by
  by_cases hpath : file.path = path
  · exact hbound.resolved file hfile hpath
  · intro entry hentry
    rw [resolutions_eq_of_files hbound.files] at hentry
    have hid : entry.1 ∈ file.imports :=
      map_fst_resolutions before (hstands.parallel file hfile) ▸ List.mem_map_of_mem hentry
    rw [hbound.kept file hfile hpath _ hid]
    exact hresolved entry hentry

end BoundFile

end Workspace

namespace Pass

/-! ### The beginning of a pass -/

section Begin

variable {environment : Environment} {workspace : Workspace}
  (hsound : workspace.Sound environment)

include hsound

theorem adjusted_ofWorkspace : workspace.Adjusted (ofWorkspace workspace).workspace :=
  .of_sameView hsound ⟨rfl, rfl, rfl, rfl⟩ rfl (fun _ => rfl) rfl

theorem sound_ofWorkspace : (ofWorkspace workspace).workspace.Sound environment :=
  (adjusted_ofWorkspace hsound).stands hsound

/-- A pass begins with nothing that waits. -/
theorem stands_ofWorkspace : (ofWorkspace workspace).workspace.Stands environment (fun _ => False)
    (· ∈ (ofWorkspace workspace).bind) :=
  (sound_ofWorkspace hsound).mono (fun _ _ h => h) fun _ _ h => h.elim

end Begin

/-- A pass that went on binding: the files stay, and so does what is resolved. Only import edges may
differ. -/
structure Onward (before after : Pass) : Prop where
  files : after.workspace.files = before.workspace.files
  removed : after.removed = before.removed
  hasEdge : ∀ key, key.kind ≠ .imports →
    (after.workspace.graph.hasEdge key ↔ before.workspace.graph.hasEdge key)
  sequence : after.sequence = before.sequence
  disk : after.disk = before.disk
  link : before.link ⊆ after.link
  resolved : ∀ file ∈ before.workspace.files, before.workspace.Resolved file →
    after.workspace.Resolved file

theorem Onward.refl (pass : Pass) : pass.Onward pass :=
  ⟨rfl, rfl, fun _ _ => Iff.rfl, rfl, rfl, fun _ h => h, fun _ _ h => h⟩

theorem Onward.trans {first second third : Pass} (hfirst : first.Onward second)
    (hsecond : second.Onward third) : first.Onward third where
  files := hsecond.files.trans hfirst.files
  removed := hsecond.removed.trans hfirst.removed
  hasEdge := fun key hkind => (hsecond.hasEdge key hkind).trans (hfirst.hasEdge key hkind)
  sequence := hsecond.sequence.trans hfirst.sequence
  disk := hsecond.disk.trans hfirst.disk
  link := fun _ hpath => hsecond.link (hfirst.link hpath)
  resolved := fun file hfile hresolved =>
    hsecond.resolved file (hfirst.files ▸ hfile) (hfirst.resolved file hfile hresolved)

/-! ### Rounds -/

/-- Passing changes on only notes more files. -/
theorem spread_fold (fresh : List Path) (pass : Pass) :
    (fresh.foldl spread pass).workspace = pass.workspace ∧
      pass.Onward (fresh.foldl spread pass) := by
  induction fresh generalizing pass with
  | nil => exact ⟨rfl, .refl pass⟩
  | cons path rest ih =>
    obtain ⟨hworkspace, honward⟩ := ih (pass.spread path)
    refine ⟨hworkspace, ?_⟩
    have hspread : pass.Onward (pass.spread path) := { Onward.refl pass with
      link := fun other hother => PathSet.mem_insertAll.2 (.inr hother) }
    exact hspread.trans honward

/-- The files that may see a difference when one is passed on: those that import it, and the others of
its package. -/
def watchersOf (pass : Pass) (path : Path) : List Path :=
  pass.workspace.importersOf path ++ pass.siblingsOf path

/-- Passing files on leaves what changed, has all their importers bound, and has all that may see a
difference linked. -/
theorem mem_bind_spread_fold (fresh : List Path) (pass : Pass) :
    (fresh.foldl spread pass).changed = pass.changed ∧
      (∀ path, path ∈ (fresh.foldl spread pass).bind ↔
        path ∈ pass.bind ∨ ∃ first ∈ fresh, path ∈ pass.workspace.importersOf first) ∧
      ∀ path, path ∈ (fresh.foldl spread pass).link ↔
        path ∈ pass.link ∨ ∃ first ∈ fresh, path ∈ pass.watchersOf first := by
  induction fresh generalizing pass with
  | nil => exact ⟨rfl, by simp, by simp⟩
  | cons first rest ih =>
    obtain ⟨hchanged, hbind, hlink⟩ := ih (pass.spread first)
    refine ⟨hchanged, fun path => (hbind path).trans ?_, fun path => (hlink path).trans ?_⟩
    · have hfirst : path ∈ (pass.spread first).bind ↔
          path ∈ pass.workspace.importersOf first ∨ path ∈ pass.bind := PathSet.mem_insertAll
      have hworkspace : (pass.spread first).workspace = pass.workspace := rfl
      rw [hfirst, hworkspace, List.exists_mem_cons_iff]
      exact or_assoc.trans or_left_comm
    · have hfirst : path ∈ (pass.spread first).link ↔
          path ∈ pass.watchersOf first ∨ path ∈ pass.link := PathSet.mem_insertAll
      have hwatchers : (pass.spread first).watchersOf = pass.watchersOf := rfl
      rw [hfirst, hwatchers, List.exists_mem_cons_iff]
      exact or_assoc.trans or_left_comm

variable {environment : Environment} {pass : Pass}

/-- A pass after the files at some paths were bound again. -/
structure Bound (environment : Environment) (pending : Path → Prop) (before : Pass)
    (paths : List Path) (after : Pass) : Prop where
  onward : before.Onward after
  bind : after.bind = before.bind
  link : after.link = before.link
  importers : after.workspace.importers = before.workspace.importers
  stands : after.workspace.Stands environment (fun _ => False)
    fun other => pending other ∧ other ∉ paths
  resolved : ∀ file ∈ before.workspace.files, file.path ∈ paths → after.workspace.Resolved file
  kept : ∀ file ∈ before.workspace.files, file.path ∉ paths → ∀ id ∈ file.imports,
    after.workspace.bindingAt? id = before.workspace.bindingAt? id
  changed : ∀ path, path ∈ after.changed ↔ path ∈ before.changed ∨
    (path ∈ paths ∧ (before.workspace.file? path).any SourceFile.exposesImports)
  proper : before.changed.Proper → after.changed.Proper

theorem exists_rebind {pending : Path → Prop}
    (hstands : pass.workspace.Stands environment (fun _ => False) pending) (path : Path) :
    ∃ after, pass.rebind path = .ok after ∧ Bound environment pending pass [path] after := by
  obtain ⟨workspace, hrun, hbound⟩ := Workspace.exists_bindFile hstands path
  let next : Pass := { pass with workspace }
  have honward : pass.Onward next := ⟨hbound.files, rfl, hbound.hasEdge, rfl, rfl, fun _ h => h,
    fun file hfile => hbound.resolved_of hstands hfile⟩
  have himporters := (Workspace.evolves_bindFile hrun).importers
  have hstandsNext : next.workspace.Stands environment (fun _ => False)
      fun other => pending other ∧ other ∉ [path] :=
    hbound.stands.mono (fun _ _ h => h) fun _ _ h => ⟨h.1, by simpa using h.2⟩
  have hresolved : ∀ file ∈ pass.workspace.files, file.path ∈ [path] →
      next.workspace.Resolved file := fun file hfile hpath =>
    hbound.resolved file hfile (List.mem_singleton.1 hpath)
  have hkept : ∀ file ∈ pass.workspace.files, file.path ∉ [path] → ∀ id ∈ file.imports,
      next.workspace.bindingAt? id = pass.workspace.bindingAt? id := fun file hfile hpath =>
    hbound.kept file hfile (by simpa using hpath)
  have hfile? : workspace.file? path = pass.workspace.file? path := by
    rw [Workspace.file?, hbound.files, Workspace.file?]
  rw [rebind, hrun, ok_bind]
  simp only [hfile?]
  split
  · rename_i hexposes
    have hnoted : next.Onward (next.noteChanged path) := { Onward.refl next with }
    refine ⟨next.noteChanged path, rfl, honward.trans hnoted, rfl, rfl, himporters, hstandsNext,
      hresolved, hkept, fun other => ?_, fun hproper => ?_⟩
    · rw [noteChanged, PathSet.mem_insert, or_comm, List.mem_singleton]
      exact or_congr_right ⟨fun h => ⟨h, h ▸ hexposes⟩, fun h => h.1⟩
    · obtain ⟨file, hfile, -⟩ := (Option.any_eq_true _ _).1 hexposes
      obtain ⟨hmem, rfl⟩ := Workspace.file?_mem hfile
      exact hproper.insert (hstands.ordered.normal file hmem)
  · rename_i hexposes
    refine ⟨next, rfl, honward, rfl, rfl, himporters, hstandsNext, hresolved, hkept, fun other => ?_, id⟩
    refine ⟨.inl, fun h => h.resolve_right ?_⟩
    rintro ⟨hpath, hexposed⟩
    exact hexposes (List.mem_singleton.1 hpath ▸ hexposed)

theorem exists_rebindAll {pending : Path → Prop}
    (hstands : pass.workspace.Stands environment (fun _ => False) pending) (paths : List Path) :
    ∃ after, paths.foldlM rebind pass = .ok after ∧ Bound environment pending pass paths after := by
  refine exists_foldlM rebind paths pass (Bound environment pending pass)
    ⟨.refl pass, rfl, rfl, rfl, hstands.mono (fun _ _ h => h) fun _ _ h => ⟨h, by simp⟩, by simp,
      fun _ _ _ _ _ => rfl, by simp, id⟩ ?_
  intro done path rest state _ hstate
  obtain ⟨next, hrun, hnext⟩ := exists_rebind hstate.stands path
  have hfiles := hstate.onward.files
  refine ⟨next, hrun, hstate.onward.trans hnext.onward, hnext.bind.trans hstate.bind,
    hnext.link.trans hstate.link, hnext.importers.trans hstate.importers,
    hnext.stands.mono (fun _ _ h => h) fun file _ h => ?_,
    fun file hfile hpath => ?_, fun file hfile hpath id hid => ?_, fun other => ?_,
    hnext.proper ∘ hstate.proper⟩
  · exact ⟨h.1.1, fun hmem => (List.mem_append.1 hmem).elim h.1.2 h.2⟩
  · have hfile' : file ∈ state.workspace.files := hfiles ▸ hfile
    rcases List.mem_append.1 hpath with hpath | hpath
    · exact hnext.onward.resolved file hfile' (hstate.resolved file hfile hpath)
    · exact hnext.resolved file hfile' hpath
  · rw [List.mem_append, not_or] at hpath
    rw [hnext.kept file (hfiles ▸ hfile) hpath.2 id hid, hstate.kept file hfile hpath.1 id hid]
  · have hfile? : state.workspace.file? other = pass.workspace.file? other := by
      rw [Workspace.file?, hfiles, Workspace.file?]
    rw [hnext.changed, hfile?, hstate.changed, List.mem_append, or_and_right, or_assoc]

/-- The changed files that were not passed on before. -/
def unpassed (pass : Pass) (propagated : PathSet) : List Path :=
  pass.changed.filter (· ∉ propagated)

/-- The pass after these were passed on. -/
def passOn (pass : Pass) (propagated : PathSet) : Pass :=
  (pass.unpassed propagated).foldl spread { pass with changed := [] }

theorem onward_passOn (pass : Pass) (propagated : PathSet) :
    (pass.passOn propagated).workspace = pass.workspace ∧ pass.Onward (pass.passOn propagated) := by
  obtain ⟨hworkspace, honward⟩ :=
    spread_fold (pass.unpassed propagated) { pass with changed := [] }
  have hspread : pass.Onward { pass with changed := [] } := { Onward.refl pass with }
  exact ⟨hworkspace, hspread.trans honward⟩

/-- One round of binding: the changed files that were not passed on before are, and what waits is
bound then, their importers with it. -/
structure Round (environment : Environment) (propagated : PathSet) (before : Pass)
    (fresh bound : List Path) (after : Pass) : Prop where
  onward : before.Onward after
  stands : after.workspace.Stands environment (fun _ => False) (· ∈ after.bind)
  idle : after.bind = []
  importersOf : ∀ path, after.workspace.importersOf path = before.workspace.importersOf path
  mem_fresh : ∀ path, path ∈ fresh ↔ path ∈ before.changed ∧ path ∉ propagated
  mem_bound : ∀ path, path ∈ bound ↔
    path ∈ before.bind ∨ ∃ first ∈ fresh, path ∈ before.workspace.importersOf first
  mem_changed : ∀ path, path ∈ after.changed ↔
    path ∈ bound ∧ (before.workspace.file? path).any SourceFile.exposesImports
  mem_link : ∀ path, path ∈ after.link ↔
    path ∈ before.link ∨ ∃ first ∈ fresh, path ∈ before.watchersOf first
  resolved : ∀ file ∈ before.workspace.files, file.path ∈ bound → after.workspace.Resolved file
  kept : ∀ file ∈ before.workspace.files, file.path ∉ bound → ∀ id ∈ file.imports,
    after.workspace.bindingAt? id = before.workspace.bindingAt? id
  proper : after.changed.Proper

theorem exists_round (propagated : PathSet)
    (hstands : pass.workspace.Stands environment (fun _ => False) (· ∈ pass.bind)) :
    ∃ after, (pass.passOn propagated).bind.foldlM rebind { pass.passOn propagated with bind := [] } =
        .ok after ∧
      Round environment propagated pass (pass.unpassed propagated) (pass.passOn propagated).bind
        after := by
  obtain ⟨hworkspace, honward⟩ := onward_passOn pass propagated
  obtain ⟨hchanged, hbind, hlink⟩ :=
    mem_bind_spread_fold (pass.unpassed propagated) { pass with changed := [] }
  rw [← passOn] at hchanged hbind hlink
  generalize hfresh : pass.unpassed propagated = fresh at *
  generalize pass.passOn propagated = spreaded at *
  let start : Pass := { spreaded with bind := [] }
  have hstart : start.workspace.Stands environment (fun _ => False) (· ∈ pass.bind) :=
    hworkspace.symm ▸ hstands
  obtain ⟨after, hrun, hbound⟩ := exists_rebindAll hstart spreaded.bind
  have hfiles : spreaded.workspace.files = pass.workspace.files := honward.files
  have hfile? : ∀ path, spreaded.workspace.file? path = pass.workspace.file? path := fun path => by
    rw [Workspace.file?, hfiles, Workspace.file?]
  refine ⟨after, hrun, ?_, ?_, hbound.bind, fun path => ?_, fun path => ?_, hbind, fun path => ?_,
    fun path => hbound.link ▸ hlink path,
    fun file hfile => hbound.resolved file (hfiles ▸ hfile), fun file hfile hpath id hid => ?_,
    hbound.proper ?_⟩
  · have hstarted : spreaded.Onward start := { Onward.refl spreaded with }
    exact honward.trans (hstarted.trans hbound.onward)
  · exact hbound.stands.mono (fun _ _ h => h) fun _ _ h => absurd ((hbind _).2 (.inl h.1)) h.2
  · have himporters : after.workspace.importers = pass.workspace.importers :=
      hbound.importers.trans (congrArg Workspace.importers hworkspace)
    simp only [Workspace.importersOf, Workspace.indexedAt, himporters]
  · rw [← hfresh, unpassed, List.mem_filter, decide_eq_true_eq]
  · have hnothing : path ∉ spreaded.changed := hchanged ▸ List.not_mem_nil
    rw [hbound.changed, or_iff_right hnothing, hfile?]
  · rw [hbound.kept file (hfiles ▸ hfile) hpath id hid, hworkspace]
  · exact hchanged ▸ PathSet.proper_nil

theorem Round.mem_fresh_or {propagated : PathSet} {fresh bound : List Path} {after : Pass}
    (hround : Round environment propagated pass fresh bound after) {path : Path}
    (hpath : path ∈ pass.changed) : path ∈ fresh ∨ path ∈ propagated := by
  rw [hround.mem_fresh]
  exact (em (path ∈ propagated)).symm.imp_left fun h => ⟨hpath, h⟩

/-- A round that binds anything because of a change passes on a file that is present. -/
theorem Round.passes {propagated : PathSet} {fresh bound : List Path} {after : Pass}
    (hround : Round environment propagated pass fresh bound after) (hbusy : bound ≠ [])
    (hidle : pass.bind = [])
    (hpresent : ∀ path ∈ pass.changed, ∃ file ∈ pass.workspace.files, file.path = path) :
    ∃ file ∈ pass.workspace.files, file.path ∈ fresh ∧ file.path ∉ propagated := by
  obtain ⟨path, hpath⟩ := List.exists_mem_of_ne_nil bound hbusy
  obtain ⟨first, hfirst, -⟩ := ((hround.mem_bound path).1 hpath).resolve_left (by simp [hidle])
  obtain ⟨hchanged, hunseen⟩ := (hround.mem_fresh first).1 hfirst
  obtain ⟨file, hfile, rfl⟩ := hpresent first hchanged
  exact ⟨file, hfile, hfirst, hunseen⟩

/-- What rounds of binding came to. Some files were passed on, what changed among them, and some were
bound again: what waited, and the importers of what was passed on. Those that expose their imports
were passed on in turn. The others are as before. -/
structure Closed (propagated : PathSet) (before : Pass) (passed reached : Path → Prop)
    (after : Workspace) : Prop where
  changed : ∀ path ∈ before.changed, passed path ∨ path ∈ propagated
  bind : ∀ path ∈ before.bind, reached path
  importers : ∀ path, passed path → ∀ other ∈ before.workspace.importersOf path, reached other
  exposing : ∀ file ∈ before.workspace.files, reached file.path → file.exposesImports →
    passed file.path ∨ file.path ∈ propagated
  origin : ∀ path, passed path → path ∈ before.changed ∨ reached path
  resolved : ∀ file ∈ before.workspace.files, reached file.path → after.Resolved file
  kept : ∀ file ∈ before.workspace.files, ¬ reached file.path → ∀ id ∈ file.imports,
    after.bindingAt? id = before.workspace.bindingAt? id

/-- One round, and what the later ones came to. -/
theorem Closed.of_round {propagated : PathSet} {fresh bound : List Path} {after last : Pass}
    {passed reached : Path → Prop} (hordered : Workspace.Ordered pass.workspace.files)
    (hround : Round environment propagated pass fresh bound after) (honward : after.Onward last)
    (hclosed : Closed (PathSet.insertAll fresh propagated) after passed reached last.workspace) :
    Closed propagated pass (fun path => path ∈ fresh ∨ passed path)
      (fun path => path ∈ bound ∨ reached path) last.workspace where
  changed := fun path hpath => (hround.mem_fresh_or hpath).imp_left .inl
  bind := fun path hpath => .inl ((hround.mem_bound path).2 (.inl hpath))
  importers := by
    rintro path (hpath | hpath) other hother
    · exact .inl ((hround.mem_bound other).2 (.inr ⟨path, hpath, hother⟩))
    · exact .inr (hclosed.importers path hpath other (hround.importersOf path ▸ hother))
  exposing := by
    intro file hfile hreached hexposes
    have hpassed : passed file.path ∨ file.path ∈ PathSet.insertAll fresh propagated := by
      rcases hreached with hreached | hreached
      · refine hclosed.changed _ ((hround.mem_changed _).2 ⟨hreached, ?_⟩)
        rw [hordered.file?_self hfile]
        exact hexposes
      · exact hclosed.exposing file (hround.onward.files ▸ hfile) hreached hexposes
    rcases hpassed with hpassed | hpassed
    · exact .inl (.inr hpassed)
    · exact (PathSet.mem_insertAll.1 hpassed).imp_left .inl
  origin := by
    rintro path (hpath | hpath)
    · exact .inl ((hround.mem_fresh path).1 hpath).1
    · exact .inr ((hclosed.origin path hpath).imp_left fun h => ((hround.mem_changed path).1 h).1)
  resolved := by
    rintro file hfile (hreached | hreached)
    · exact honward.resolved file (hround.onward.files ▸ hfile) (hround.resolved file hfile hreached)
    · exact hclosed.resolved file (hround.onward.files ▸ hfile) hreached
  kept := by
    intro file hfile hreached id hid
    rw [not_or] at hreached
    rw [hclosed.kept file (hround.onward.files ▸ hfile) hreached.2 id hid,
      hround.kept file hfile hreached.1 id hid]

/-- Rounds are left for all files that were not passed on yet, and before the first round, in which a
file may be passed on that is gone, for one more. -/
def RoundsLeft (rounds : Nat) (pass : Pass) (propagated : PathSet) : Prop :=
  (Workspace.unseen pass.workspace.files propagated).length + 2 ≤ rounds ∨
    (pass.bind = [] ∧ (∀ path ∈ pass.changed, ∃ file ∈ pass.workspace.files, file.path = path) ∧
      (Workspace.unseen pass.workspace.files propagated).length + 1 ≤ rounds)

theorem roundsLeft_enoughRounds (pass : Pass) : RoundsLeft pass.enoughRounds pass [] :=
  .inl (Nat.add_le_add_right (List.length_filter_le _ _) 2)

theorem RoundsLeft.of_round {rounds : Nat} {propagated : PathSet} {fresh bound : List Path}
    {after : Pass} (hround : Round environment propagated pass fresh bound after)
    (hbusy : bound ≠ []) (hrounds : RoundsLeft (rounds + 1) pass propagated) :
    RoundsLeft rounds after (PathSet.insertAll fresh propagated) := by
  have hmore : propagated ⊆ PathSet.insertAll fresh propagated := fun path hpath =>
    PathSet.mem_insertAll.2 (.inr hpath)
  have hsub : (Workspace.unseen pass.workspace.files (PathSet.insertAll fresh propagated)).Sublist
      (Workspace.unseen pass.workspace.files propagated) := Workspace.unseen_sublist hmore
  have hfewer := hsub.length_le
  refine .inr ⟨hround.idle, fun path hpath => ?_, ?_⟩
  · obtain ⟨file, hfile, -⟩ :=
      (Option.any_eq_true _ _).1 ((hround.mem_changed path).1 hpath).2
    rw [hround.onward.files]
    exact ⟨file, Workspace.file?_mem hfile⟩
  · rw [hround.onward.files]
    rcases hrounds with hrounds | ⟨hidle, hpresent, hrounds⟩
    · omega
    · obtain ⟨file, hfile, hfresh, hunseen⟩ := hround.passes hbusy hidle hpresent
      have hlt := Workspace.length_unseen_lt hmore hfile hunseen
        (PathSet.mem_insertAll.2 (.inl hfresh))
      omega

/-- Rounds of binding to their end, however many there are, with the files that were passed on and
those that were bound, round by round. -/
inductive Settles : Pass → PathSet → Nat → List Path → List Path → Pass → Prop
  | idle {pass : Pass} {propagated : PathSet} (hidle : (pass.passOn propagated).bind = []) :
    Settles pass propagated 0 (pass.unpassed propagated) [] (pass.passOn propagated)
  | round {pass next last : Pass} {propagated : PathSet} {rounds : Nat} {passed bound : List Path}
    (hbusy : (pass.passOn propagated).bind ≠ [])
    (hbind : (pass.passOn propagated).bind.foldlM rebind { pass.passOn propagated with bind := [] } =
      .ok next)
    (hrest : Settles next (PathSet.insertAll (pass.unpassed propagated) propagated) rounds passed
      bound last) :
    Settles pass propagated (rounds + 1) (pass.unpassed propagated ++ passed)
      ((pass.passOn propagated).bind ++ bound) last

/-- One turn of the loop. -/
theorem settle_succ (turns : Nat) (pass : Pass) (propagated : PathSet) :
    settle (turns + 1) pass propagated =
      if (pass.passOn propagated).bind.isEmpty then .ok (pass.passOn propagated)
      else (pass.passOn propagated).bind.foldlM rebind { pass.passOn propagated with bind := [] } >>=
        fun next => settle turns next (PathSet.insertAll (pass.unpassed propagated) propagated) :=
  rfl

/-- The loop makes these rounds when it has one turn more, to find that nothing is left. -/
theorem Settles.settle_eq {propagated : PathSet} {rounds : Nat} {passed bound : List Path}
    {last : Pass} (hrun : Settles pass propagated rounds passed bound last) {turns : Nat}
    (hturns : rounds < turns) : settle turns pass propagated = .ok last := by
  induction hrun generalizing turns with
  | idle hidle =>
    obtain ⟨turns, rfl⟩ := Nat.exists_eq_add_of_le' (Nat.one_le_of_lt hturns)
    rw [settle_succ, if_pos (List.isEmpty_iff.2 hidle)]
  | round hbusy hbind _ ih =>
    obtain ⟨turns, rfl⟩ := Nat.exists_eq_add_of_le' (Nat.one_le_of_lt hturns)
    rw [settle_succ, if_neg fun hempty => hbusy (List.isEmpty_iff.1 hempty), hbind, ok_bind]
    exact ih (Nat.lt_of_succ_lt_succ hturns)

/-- **Rounds of binding go on until nothing is left to bind**, and they end before the rounds run
out. -/
theorem exists_settles (rounds : Nat) (propagated : PathSet)
    (hstands : pass.workspace.Stands environment (fun _ => False) (· ∈ pass.bind))
    (hrounds : RoundsLeft rounds pass propagated) :
    ∃ used passed bound last, Settles pass propagated used passed bound last ∧ used < rounds := by
  induction rounds generalizing pass propagated with
  | zero => rcases hrounds with h | ⟨-, -, h⟩ <;> omega
  | succ rounds ih =>
    by_cases hidle : (pass.passOn propagated).bind = []
    · exact ⟨0, _, _, _, .idle hidle, Nat.succ_pos rounds⟩
    · obtain ⟨next, hbind, hround⟩ := exists_round propagated hstands
      obtain ⟨used, passed, bound, last, hrest, hused⟩ :=
        ih _ hround.stands (hrounds.of_round hround hidle)
      exact ⟨used + 1, _, _, last, .round hidle hbind hrest, Nat.succ_lt_succ hused⟩

/-- **What rounds of binding come to**, by induction on the rounds: what one round binds and passes on
is joined with what the later ones do. -/
theorem Settles.closed {propagated : PathSet} {rounds : Nat} {passed bound : List Path} {last : Pass}
    (hrun : Settles pass propagated rounds passed bound last)
    (hstands : pass.workspace.Stands environment (fun _ => False) (· ∈ pass.bind)) :
    pass.Onward last ∧ last.workspace.Sound environment ∧
      Closed propagated pass (· ∈ passed) (· ∈ bound) last.workspace ∧
      ∀ path ∈ bound, path ∈ pass.bind ∨ path ∈ last.link := by
  induction hrun with
  | @idle pass propagated hidle =>
    obtain ⟨next, -, hround⟩ := exists_round propagated hstands
    obtain ⟨hworkspace, honward⟩ := onward_passOn pass propagated
    have hnone : ∀ path, path ∉ (pass.passOn propagated).bind := by
      rw [hidle]
      exact fun path => List.not_mem_nil
    have hnothing : ∀ path, path ∉ pass.bind := fun path hpath =>
      hnone path ((hround.mem_bound path).2 (.inl hpath))
    refine ⟨honward, ?_, ⟨fun path hpath => hround.mem_fresh_or hpath,
      fun path hpath => absurd hpath (hnothing path), fun path hpath other hother => ?_,
      fun _ _ hbound => absurd hbound List.not_mem_nil,
      fun path hpath => .inl ((hround.mem_fresh path).1 hpath).1,
      fun _ _ hbound => absurd hbound List.not_mem_nil, fun _ _ _ id _ => by rw [hworkspace]⟩,
      fun _ hbound => absurd hbound List.not_mem_nil⟩
    · rw [hworkspace]
      exact hstands.mono (fun _ _ h => h) fun file _ h => absurd h (hnothing _)
    · exact absurd ((hround.mem_bound other).2 (.inr ⟨path, hpath, hother⟩)) (hnone other)
  | @round pass next last propagated rounds passed bound hbusy hbind _ ih =>
    obtain ⟨found, hfound, hround⟩ := exists_round propagated hstands
    obtain rfl := Except.ok.inj (hfound.symm.trans hbind)
    obtain ⟨honward, hsound, hclosed, hlink⟩ := ih hround.stands
    refine ⟨hround.onward.trans honward, hsound, ?_, fun path hpath => ?_⟩
    · simpa only [List.mem_append] using hclosed.of_round hstands.ordered hround honward
    · rcases List.mem_append.1 hpath with hpath | hpath
      · refine ((hround.mem_bound path).1 hpath).imp_right ?_
        rintro ⟨first, hfirst, himporter⟩
        exact honward.link ((hround.mem_link path).2
          (.inr ⟨first, hfirst, List.mem_append_left _ himporter⟩))
      · exact .inr ((hlink path hpath).resolve_left (by simp [hround.idle]))

/-! ### The end of a pass -/

theorem exists_relink (hsound : pass.workspace.Sound environment) :
    ∃ after, pass.relink = .ok after ∧ pass.workspace.Adjusted after ∧ after.Tended ∧
      (∀ file ∈ pass.workspace.files, file.path ∈ pass.link → after.Exact file) ∧
      ∀ key, (∀ file ∈ pass.workspace.files, file.path ∈ pass.link → ¬ file.Uses key) →
        (after.graph.hasEdge key ↔ pass.workspace.graph.hasEdge key) := by
  obtain ⟨linked, hrunLinked, hadjusted, hexact, hothers⟩ :=
    Workspace.exists_linkFiles hsound pass.link
  have hsoundLinked := hadjusted.stands hsound
  obtain ⟨after, hrunAfter, hcollected, htended, hedge⟩ :=
    Workspace.exists_collectExternals hsoundLinked
  refine ⟨after, ?_, hadjusted.trans hcollected, htended, fun file hfile hpath => ?_,
    fun key hnot => (hedge key).trans (hothers key hnot)⟩
  · rw [relink, hrunLinked]
    exact hrunAfter
  · refine hcollected.exact hsoundLinked (hadjusted.files ▸ hfile) (fun key _ => ?_)
      (hexact file hfile hpath)
    exact (Workspace.evolves_collectExternals hrunAfter).graph.edge?_eq hsoundLinked.graph
      hcollected.sound (hedge key)

/-- What a pass makes of the workspace when it converges. -/
structure Converged (environment : Environment) (pass : Pass) (outcome : Outcome) : Prop where
  sound : outcome.workspace.Sound environment
  tended : outcome.workspace.Tended
  files : outcome.workspace.files = pass.workspace.files
  sequence : outcome.workspace.sequence = pass.sequence
  disk : outcome.disk = pass.disk
  settled : ∃ rounds passed bound last, Settles pass [] rounds passed bound last ∧
    pass.link ⊆ last.link ∧ (∀ path ∈ bound, path ∈ pass.bind ∨ path ∈ last.link) ∧
    Closed [] pass (· ∈ passed) (· ∈ bound) outcome.workspace ∧
    ∀ file ∈ pass.workspace.files, (file.path ∈ last.link → outcome.workspace.Exact file) ∧
      (file.path ∉ last.link → ∀ key, file.Uses key →
        (outcome.workspace.graph.hasEdge key ↔ pass.workspace.graph.hasEdge key))

theorem Converged.closed {outcome : Outcome} (hconverged : Converged environment pass outcome) :
    ∃ passed reached, Closed [] pass passed reached outcome.workspace ∧
      ∀ file ∈ pass.workspace.files, reached file.path →
        file.path ∈ pass.bind ∨ outcome.workspace.Exact file := by
  obtain ⟨_, passed, bound, last, -, -, hlink, hclosed, hlinked⟩ := hconverged.settled
  exact ⟨_, _, hclosed, fun file hfile hbound => (hlink _ hbound).imp_right (hlinked file hfile).1⟩

theorem Converged.exact {outcome : Outcome} (hconverged : Converged environment pass outcome)
    {file : SourceFile} (hfile : file ∈ pass.workspace.files) (hlink : file.path ∈ pass.link) :
    outcome.workspace.Exact file := by
  obtain ⟨_, _, _, last, -, hmore, -, -, hlinked⟩ := hconverged.settled
  exact (hlinked file hfile).1 (hmore hlink)

theorem Converged.resolved {outcome : Outcome} (hconverged : Converged environment pass outcome)
    {file : SourceFile} (hfile : file ∈ pass.workspace.files) (hbind : file.path ∈ pass.bind) :
    outcome.workspace.Resolved file := by
  obtain ⟨passed, reached, hclosed, -⟩ := hconverged.closed
  exact hclosed.resolved file hfile (hclosed.bind _ hbind)

/-- What rounds of binding came to stays when nothing but uses is linked afterwards. -/
theorem Closed.adjusted {propagated : PathSet} {passed reached : Path → Prop}
    {settled after : Workspace} (hclosed : Closed propagated pass passed reached settled)
    (hfiles : settled.files = pass.workspace.files) (hsound : settled.Sound environment)
    (hadjusted : settled.Adjusted after) : Closed propagated pass passed reached after where
  changed := hclosed.changed
  bind := hclosed.bind
  importers := hclosed.importers
  exposing := hclosed.exposing
  origin := hclosed.origin
  resolved := fun file hfile hreached =>
    hadjusted.resolved hsound (hfiles ▸ hfile) (hclosed.resolved file hfile hreached)
  kept := fun file hfile hreached id hid => by
    rw [Workspace.bindingAt?, hadjusted.node? file (hfiles ▸ hfile) id
      (SourceFile.mem_nodes_of_import hid)]
    exact hclosed.kept file hfile hreached id hid

/-- **Every pass whose workspace stands converges.** -/
theorem exists_converge
    (hstands : pass.workspace.Stands environment (fun _ => False) (· ∈ pass.bind)) :
    ∃ outcome, pass.converge = .ok outcome ∧ Converged environment pass outcome := by
  obtain ⟨used, passed, bound, settled, hrun, hused⟩ :=
    exists_settles pass.enoughRounds [] hstands (roundsLeft_enoughRounds pass)
  have hrunSettled := hrun.settle_eq hused
  obtain ⟨honward, hsound, hclosed, hreachedLink⟩ := hrun.closed hstands
  obtain ⟨linked, hrunLinked, hadjusted, htended, hexact, hothers⟩ := exists_relink hsound
  have hsoundLinked : linked.Sound environment := hadjusted.stands hsound
  let last : Workspace :=
    { linked with graph := linked.graph.takeJournal.2, sequence := settled.sequence }
  have hview : linked.graph.SameView last.graph := ⟨rfl, rfl, rfl, rfl⟩
  have hlast : linked.Adjusted last := .of_sameView hsoundLinked hview rfl (fun _ => rfl) rfl
  have hexactLast : ∀ file ∈ pass.workspace.files, file.path ∈ settled.link → last.Exact file := by
    intro file hfile hpath
    have hfile' : file ∈ settled.workspace.files := honward.files ▸ hfile
    exact hlast.exact hsoundLinked (hadjusted.files ▸ hfile') (fun _ _ => rfl)
      (hexact file hfile' hpath)
  refine ⟨⟨last, linked.graph.takeJournal.1, settled.disk⟩, ?_, hlast.stands hsoundLinked, htended,
    hadjusted.files.trans honward.files, honward.sequence, honward.disk,
    used, passed, bound, settled, hrun, honward.link, hreachedLink,
    hclosed.adjusted honward.files hsound (hadjusted.trans hlast),
    fun file hfile => ⟨hexactLast file hfile, fun hpath key hkey => ?_⟩⟩
  · rw [converge, hrunSettled]
    simp only [Except.mapError, ok_bind, hrunLinked, hsoundLinked.check_eq_ok]
    rfl
  · have hfile' : file ∈ settled.workspace.files := honward.files ▸ hfile
    have hkind : key.kind ≠ .imports := by
      obtain ⟨-, hkind | hkind⟩ := hkey <;> rw [hkind] <;> decide
    refine (hothers key fun other hother hlinked => ?_).trans (honward.hasEdge key hkind)
    exact hsound.not_uses hother hfile' (fun h => hpath (h ▸ hlinked)) hkey

end Pass

end CodeGraph
