import CodeGraph.Proofs.Workspace.Converge
import CodeGraph.Proofs.Workspace.Move

/-!
# The work of a pass

What the steps on single files have noted tells which files a pass binds: those that wait, the
importers of the changed ones, and then the importers of every file that is bound and exposes its
imports. The rounds of binding come to these files and to no others, pass no file on twice, and bind
each file at most once a round. The files whose uses are linked in the end are the ones that were
noted for it, and those that see a file that was passed on.
-/

namespace CodeGraph

namespace Workspace

variable {environment : Environment} {stale pending : Path → Prop} {workspace : Workspace}

/-- Only files that are there are indexed as importers. -/
theorem Stands.exists_importer (hstands : workspace.Stands environment stale pending)
    {path importer : Path} (himporter : importer ∈ workspace.importersOf path) :
    ∃ file ∈ workspace.files, file.path = importer := by
  obtain ⟨place, hplace⟩ : ∃ place, importer ∈ workspace.indexedAt place := by
    obtain ⟨hplace | ⟨directory, -, hplace⟩, -⟩ := mem_importersOf.1 himporter
    · exact ⟨path, hplace⟩
    · exact ⟨directory, hplace⟩
  obtain ⟨file, hfile, hpath, -⟩ := hstands.indexed.only place importer hplace
  exact ⟨file, hfile, hpath⟩

end Workspace

namespace Pass

variable {environment : Environment} {pass : Pass}

/-! ### The files that have to be bound -/

/-- The files that a pass has to bind: those that wait for it, the importers of a changed file, and
the importers of a file that has to be bound itself, is there and exposes its imports. -/
inductive Awaits (pass : Pass) : Path → Prop
  | waiting {path : Path} (hpath : path ∈ pass.bind) : Awaits pass path
  | changed {path importer : Path} (hchanged : path ∈ pass.changed)
    (himporter : importer ∈ pass.workspace.importersOf path) : Awaits pass importer
  | exposed {path importer : Path} (hawaits : Awaits pass path)
    (hexposes : (pass.workspace.file? path).any SourceFile.exposesImports)
    (himporter : importer ∈ pass.workspace.importersOf path) : Awaits pass importer

section Round

variable {propagated : PathSet} {fresh bound : List Path} {after : Pass}
  (hround : Round environment propagated pass fresh bound after)

include hround

theorem Round.awaits {path : Path} (hpath : path ∈ bound) : pass.Awaits path := by
  rcases (hround.mem_bound path).1 hpath with hpath | ⟨first, hfirst, himporter⟩
  · exact .waiting hpath
  · exact .changed ((hround.mem_fresh first).1 hfirst).1 himporter

/-- After a round no other files have to be bound than before. -/
theorem Round.awaits_of_after {path : Path} (hawaits : after.Awaits path) : pass.Awaits path := by
  have hfile? : ∀ path, after.workspace.file? path = pass.workspace.file? path := fun path => by
    rw [Workspace.file?, hround.onward.files, Workspace.file?]
  induction hawaits with
  | waiting hpath => simp [hround.idle] at hpath
  | changed hchanged himporter =>
    obtain ⟨hbound, hexposes⟩ := (hround.mem_changed _).1 hchanged
    exact .exposed (hround.awaits hbound) hexposes (hround.importersOf _ ▸ himporter)
  | exposed _ hexposes himporter ih =>
    exact .exposed ih (hfile? _ ▸ hexposes) (hround.importersOf _ ▸ himporter)

end Round

/-- Rounds of binding bind nothing that does not have to be. -/
theorem Settles.awaits {propagated : PathSet} {rounds : Nat} {passed bound : List Path} {last : Pass}
    (hrun : Settles pass propagated rounds passed bound last)
    (hstands : pass.workspace.Stands environment (fun _ => False) (· ∈ pass.bind)) {path : Path}
    (hpath : path ∈ bound) : pass.Awaits path := by
  induction hrun with
  | idle => cases hpath
  | @round pass next last propagated rounds passed bound _ hbind _ ih =>
    obtain ⟨found, hfound, hround⟩ := exists_round propagated hstands
    obtain rfl := Except.ok.inj (hfound.symm.trans hbind)
    rcases List.mem_append.1 hpath with hpath | hpath
    · exact hround.awaits hpath
    · exact hround.awaits_of_after (ih hround.stands hpath)

/-- What rounds of binding reached, when none came before, is everything that has to be bound. -/
theorem Closed.reached_of_awaits {passed reached : Path → Prop} {after : Workspace}
    (hclosed : Closed [] pass passed reached after) {path : Path} (hawaits : pass.Awaits path) :
    reached path := by
  induction hawaits with
  | waiting hpath => exact hclosed.bind _ hpath
  | changed hchanged himporter =>
    have hpassed := (hclosed.changed _ hchanged).resolve_right List.not_mem_nil
    exact hclosed.importers _ hpassed _ himporter
  | exposed _ hexposes himporter ih =>
    obtain ⟨file, hfile, hexposed⟩ := (Option.any_eq_true _ _).1 hexposes
    obtain ⟨hmem, rfl⟩ := Workspace.file?_mem hfile
    have hpassed := (hclosed.exposing file hmem ih hexposed).resolve_right List.not_mem_nil
    exact hclosed.importers _ hpassed _ himporter

/-- **The files that rounds of binding bind are those that have to be bound.** -/
theorem Settles.mem_bound_iff {rounds : Nat} {passed bound : List Path} {last : Pass}
    (hrun : Settles pass [] rounds passed bound last)
    (hstands : pass.workspace.Stands environment (fun _ => False) (· ∈ pass.bind)) (path : Path) :
    path ∈ bound ↔ pass.Awaits path := by
  obtain ⟨-, -, hclosed, -⟩ := hrun.closed hstands
  exact ⟨fun hpath => hrun.awaits hstands hpath, fun hawaits => hclosed.reached_of_awaits hawaits⟩

/-! ### The files that are linked -/

/-- The files that a pass passes on: those that changed, and those that it has to bind, if they are
there and expose their imports. -/
def PassesOn (pass : Pass) (path : Path) : Prop :=
  path ∈ pass.changed ∨
    (pass.Awaits path ∧ (pass.workspace.file? path).any SourceFile.exposesImports)

/-- The files whose uses a pass links: those that were noted for it, and those that may see a
difference when a file is passed on. -/
def Relinks (pass : Pass) (path : Path) : Prop :=
  path ∈ pass.link ∨ ∃ first, pass.PassesOn first ∧ path ∈ pass.watchersOf first

section Round

variable {propagated : PathSet} {fresh bound : List Path} {after : Pass}
  (hround : Round environment propagated pass fresh bound after)

include hround

theorem Round.passesOn_of_after {path : Path} (hpasses : after.PassesOn path) :
    pass.PassesOn path := by
  obtain hchanged | ⟨hawaits, hexposes⟩ := hpasses
  · obtain ⟨hbound, hexposes⟩ := (hround.mem_changed path).1 hchanged
    exact .inr ⟨hround.awaits hbound, hexposes⟩
  · rw [Workspace.file?, hround.onward.files] at hexposes
    exact .inr ⟨hround.awaits_of_after hawaits, hexposes⟩

theorem Round.watchersOf (path : Path) : after.watchersOf path = pass.watchersOf path := by
  rw [Pass.watchersOf, Pass.watchersOf, hround.importersOf]
  simp only [siblingsOf, Workspace.file?, Workspace.packageFiles, hround.onward.files,
    hround.onward.removed]

end Round

/-- Rounds of binding pass nothing on that does not have to be. -/
theorem Settles.passesOn {propagated : PathSet} {rounds : Nat} {passed bound : List Path} {last : Pass}
    (hrun : Settles pass propagated rounds passed bound last)
    (hstands : pass.workspace.Stands environment (fun _ => False) (· ∈ pass.bind)) {path : Path}
    (hpath : path ∈ passed) : pass.PassesOn path := by
  induction hrun with
  | idle => exact .inl (List.mem_filter.1 hpath).1
  | @round pass next last propagated rounds passed bound _ hbind _ ih =>
    obtain ⟨found, hfound, hround⟩ := exists_round propagated hstands
    obtain rfl := Except.ok.inj (hfound.symm.trans hbind)
    obtain hpath | hpath := List.mem_append.1 hpath
    · exact .inl (List.mem_filter.1 hpath).1
    · exact hround.passesOn_of_after (ih hround.stands hpath)

/-- **The files that rounds of binding pass on are those that have to be passed on.** -/
theorem Settles.mem_passed_iff {rounds : Nat} {passed bound : List Path} {last : Pass}
    (hrun : Settles pass [] rounds passed bound last)
    (hstands : pass.workspace.Stands environment (fun _ => False) (· ∈ pass.bind)) (path : Path) :
    path ∈ passed ↔ pass.PassesOn path := by
  refine ⟨fun hpath => hrun.passesOn hstands hpath, ?_⟩
  obtain ⟨-, -, hclosed, -⟩ := hrun.closed hstands
  rintro (hchanged | ⟨hawaits, hexposes⟩)
  · exact (hclosed.changed path hchanged).resolve_right List.not_mem_nil
  · obtain ⟨file, hfile, hexposed⟩ := (Option.any_eq_true _ _).1 hexposes
    obtain ⟨hmem, rfl⟩ := Workspace.file?_mem hfile
    have hreached := hclosed.reached_of_awaits hawaits
    exact (hclosed.exposing file hmem hreached hexposed).resolve_right List.not_mem_nil

/-- Rounds of binding note the files to be linked that see what is passed on. -/
theorem Settles.mem_link {propagated : PathSet} {rounds : Nat} {passed bound : List Path}
    {last : Pass} (hrun : Settles pass propagated rounds passed bound last)
    (hstands : pass.workspace.Stands environment (fun _ => False) (· ∈ pass.bind)) (path : Path) :
    path ∈ last.link ↔ path ∈ pass.link ∨ ∃ first ∈ passed, path ∈ pass.watchersOf first := by
  induction hrun with
  | @idle pass propagated =>
    exact (mem_bind_spread_fold (pass.unpassed propagated) { pass with changed := [] }).2.2 path
  | @round pass next last propagated rounds passed bound _ hbind _ ih =>
    obtain ⟨found, hfound, hround⟩ := exists_round propagated hstands
    obtain rfl := Except.ok.inj (hfound.symm.trans hbind)
    rw [ih hround.stands, hround.mem_link, or_assoc]
    simp only [hround.watchersOf, List.mem_append, or_and_right, exists_or]

/-- **The files that are linked in the end are those that have to be.** -/
theorem Settles.mem_link_iff {rounds : Nat} {passed bound : List Path} {last : Pass}
    (hrun : Settles pass [] rounds passed bound last)
    (hstands : pass.workspace.Stands environment (fun _ => False) (· ∈ pass.bind)) (path : Path) :
    path ∈ last.link ↔ pass.Relinks path := by
  rw [hrun.mem_link hstands, Relinks]
  simp only [hrun.mem_passed_iff hstands]

section Converged

variable {outcome : Outcome} (hconverged : Converged environment pass outcome)
  (hstands : pass.workspace.Stands environment (fun _ => False) (· ∈ pass.bind))
  {file : SourceFile} (hfile : file ∈ pass.workspace.files)

include hconverged hstands hfile

/-- The imports of a file that a pass has to bind stand for what they resolve to. -/
theorem Converged.resolved_of_awaits (hawaits : pass.Awaits file.path) :
    outcome.workspace.Resolved file := by
  obtain ⟨_, _, _, _, hrun, -, -, hclosed, -⟩ := hconverged.settled
  exact hclosed.resolved file hfile ((hrun.mem_bound_iff hstands _).2 hawaits)

/-- The imports of the others stand for what they stood for. -/
theorem Converged.bindingAt?_of_not_awaits (hnot : ¬ pass.Awaits file.path) {id : NodeId}
    (hid : id ∈ file.imports) :
    outcome.workspace.bindingAt? id = pass.workspace.bindingAt? id := by
  obtain ⟨_, _, _, _, hrun, -, -, hclosed, -⟩ := hconverged.settled
  exact hclosed.kept file hfile (mt (hrun.mem_bound_iff hstands _).1 hnot) id hid

/-- The uses of a file that a pass links are the ones it should have. -/
theorem Converged.exact_of_relinks (hrelinks : pass.Relinks file.path) :
    outcome.workspace.Exact file := by
  obtain ⟨_, _, _, last, hrun, -, -, -, hlinked⟩ := hconverged.settled
  exact (hlinked file hfile).1 ((hrun.mem_link_iff hstands _).2 hrelinks)

/-- The uses of the others are left alone. -/
theorem Converged.hasEdge_of_not_relinks (hnot : ¬ pass.Relinks file.path) {key : EdgeKey}
    (hkey : file.Uses key) :
    outcome.workspace.graph.hasEdge key ↔ pass.workspace.graph.hasEdge key := by
  obtain ⟨_, _, _, last, hrun, -, -, -, hlinked⟩ := hconverged.settled
  exact (hlinked file hfile).2 (mt (hrun.mem_link_iff hstands _).1 hnot) key hkey

end Converged

/-! ### The amount of work -/

/-- What the steps on single files leave to be worked off: the files that wait are there, and what
changed is noted once. -/
structure Ready (environment : Environment) (pass : Pass) : Prop where
  stands : pass.workspace.Stands environment (fun _ => False) (· ∈ pass.bind)
  bind : pass.bind.Proper
  present : ∀ path ∈ pass.bind, ∃ file ∈ pass.workspace.files, file.path = path
  changed : pass.changed.Proper

section Ready

variable (hready : Ready environment pass)

include hready

/-- Passing on has files bound that are there, each noted once. -/
theorem Ready.passOn (propagated : PathSet) : (pass.passOn propagated).bind.Proper ∧
    ∀ path ∈ (pass.passOn propagated).bind, ∃ file ∈ pass.workspace.files, file.path = path := by
  refine (List.foldlRecOn (motive := fun state : Pass => state.workspace = pass.workspace ∧
    state.bind.Proper ∧ ∀ path ∈ state.bind, ∃ file ∈ pass.workspace.files, file.path = path)
    (b := { pass with changed := [] }) (pass.unpassed propagated) spread
    ⟨rfl, hready.bind, hready.present⟩ ?_).2
  rintro state ⟨hworkspace, hproper, hpresent⟩ path -
  have himporters : ∀ importer ∈ state.workspace.importersOf path,
      ∃ file ∈ pass.workspace.files, file.path = importer := by
    rw [hworkspace]
    exact fun importer => hready.stands.exists_importer
  refine ⟨hworkspace, hproper.insertAll fun importer himporter => ?_, fun other hother => ?_⟩
  · obtain ⟨file, hfile, rfl⟩ := himporters importer himporter
    exact hready.stands.ordered.normal file hfile
  · exact (PathSet.mem_insertAll.1 hother).elim (himporters other) (hpresent other)

theorem Ready.length_bind_passOn (propagated : PathSet) :
    (pass.passOn propagated).bind.length ≤ pass.workspace.files.length := by
  obtain ⟨hproper, hpresent⟩ := hready.passOn propagated
  have hsubset : (pass.passOn propagated).bind ⊆ pass.workspace.paths := fun path hpath => by
    obtain ⟨file, hfile, rfl⟩ := hpresent path hpath
    exact List.mem_map_of_mem hfile
  calc (pass.passOn propagated).bind.length
      ≤ pass.workspace.paths.length := (hproper.nodup.subperm hsubset).length_le
    _ = pass.workspace.files.length := List.length_map _

omit hready in
theorem Round.ready {propagated : PathSet} {fresh bound : List Path} {after : Pass}
    (hround : Round environment propagated pass fresh bound after) : Ready environment after where
  stands := hround.stands
  bind := hround.idle ▸ PathSet.proper_nil
  present := by simp [hround.idle]
  changed := hround.proper

end Ready

/-- **Rounds of binding pass no file on twice**, and in each they bind a file at most once. By
induction on the rounds: what was passed on is remembered. -/
theorem Settles.bounded {propagated : PathSet} {rounds : Nat} {passed bound : List Path} {last : Pass}
    (hrun : Settles pass propagated rounds passed bound last) (hready : Ready environment pass) :
    passed.Nodup ∧ (∀ path ∈ passed, path ∉ propagated) ∧
      bound.length ≤ rounds * pass.workspace.files.length := by
  have hfresh : ∀ (pass : Pass) (propagated : PathSet), ∀ path ∈ pass.unpassed propagated,
      path ∉ propagated := fun _ _ path hpath => by
    simpa using (List.mem_filter.1 hpath).2
  induction hrun with
  | idle => exact ⟨hready.changed.nodup.filter _, hfresh _ _, Nat.zero_le _⟩
  | @round pass next last propagated rounds passed bound _ hbind _ ih =>
    obtain ⟨found, hfound, hround⟩ := exists_round propagated hready.stands
    obtain rfl := Except.ok.inj (hfound.symm.trans hbind)
    obtain ⟨hnodup, hlater, hlength⟩ := ih hround.ready
    have hnew : ∀ path ∈ passed, path ∉ pass.unpassed propagated ∧ path ∉ propagated :=
      fun path hpath => not_or.1 (hlater path hpath ∘ PathSet.mem_insertAll.2)
    refine ⟨(hready.changed.nodup.filter _).append hnodup fun path hfirst hpath =>
      (hnew path hpath).1 hfirst, fun path hpath => ?_, ?_⟩
    · exact (List.mem_append.1 hpath).elim (hfresh pass propagated path) fun h => (hnew path h).2
    · have hfirst := hready.length_bind_passOn propagated
      rw [hround.onward.files] at hlength
      calc ((pass.passOn propagated).bind ++ bound).length
          = (pass.passOn propagated).bind.length + bound.length := List.length_append
        _ ≤ pass.workspace.files.length + rounds * pass.workspace.files.length :=
          Nat.add_le_add hfirst hlength
        _ = (rounds + 1) * pass.workspace.files.length := by rw [Nat.succ_mul, Nat.add_comm]

/-! ### The steps on single files -/

/-- The passes that steps on single files make of a workspace. A file moves in a pass of its own. -/
inductive Pending (environment : Environment) (workspace : Workspace) : Pass → Prop
  | begin : Pending environment workspace (ofWorkspace workspace)
  | text {pass next : Pass} {path : Path} {text : String} {edits : List TextEdit}
    (hpass : Pending environment workspace pass) (hnormal : path.IsNormal)
    (happly : pass.applyText environment path text edits = .ok next) :
    Pending environment workspace next
  | removal {pass next : Pass} {path : Path} (hpass : Pending environment workspace pass)
    (hremove : pass.remove path = .ok next) : Pending environment workspace next
  | move {next : Pass} {source target : Path} (hnormal : target.IsNormal)
    (hfree : workspace.file? target = none)
    (hrename : (ofWorkspace workspace).rename environment source target = .ok next) :
    Pending environment workspace next
  | writeBack {pass : Pass} (hpass : Pending environment workspace pass) (change : DiskChange) :
    Pending environment workspace (pass.writeBack change)

section Steps

variable {next : Pass} {path : Path} {text : String} {file : SourceFile}

theorem ready_ofWorkspace {workspace : Workspace} (hsound : workspace.Sound environment) :
    Ready environment (ofWorkspace workspace) :=
  ⟨stands_ofWorkspace hsound, PathSet.proper_nil, nofun, PathSet.proper_nil⟩

/-- A text makes its file wait, and the file is there. -/
theorem Applied.ready (happlied : Applied environment pass path text file next)
    (hnormal : path.IsNormal)
    (hstands : next.workspace.Stands environment (fun _ => False) (· ∈ next.bind))
    (hbind : pass.bind.Proper)
    (hpresent : ∀ other ∈ pass.bind, ∃ file ∈ pass.workspace.files, file.path = other)
    (hchanged : pass.changed.Proper) : Ready environment next where
  stands := hstands
  bind := happlied.bind ▸ hbind.insert hnormal
  present := by
    intro other hother
    rw [happlied.bind, PathSet.mem_insert] at hother
    by_cases hpath : other = path
    · have hput := (happlied.swapped.brought file rfl).path_eq
      exact ⟨file, happlied.swapped.mem_of_put rfl, hput.trans hpath.symm⟩
    · obtain ⟨old, hold, rfl⟩ := hpresent other (hother.resolve_left hpath)
      exact ⟨old, happlied.swapped.mem_of_ne hold hpath, rfl⟩
  changed := by
    rw [happlied.changed]
    split
    · exact hchanged
    · exact hchanged.insert hnormal

theorem ready_applyText {edits : List TextEdit} (hready : Ready environment pass)
    (hnormal : path.IsNormal) (happly : pass.applyText environment path text edits = .ok next) :
    Ready environment next := by
  obtain ⟨put, found, hrun, happlied⟩ := exists_applyText hready.stands hnormal
    (isSupported_of_applyText happly) text edits
  obtain rfl := Except.ok.inj (hrun.symm.trans happly)
  have hstands : found.workspace.Stands environment (fun _ => False) (· ∈ found.bind) :=
    (happlied.stands hready.stands).mono (fun _ _ h => h.1) fun _ _ h => h
  exact happlied.ready hnormal hstands hready.bind hready.present hready.changed

/-- A file that is taken out does not wait any more. -/
theorem ready_remove (hready : Ready environment pass) (hremove : pass.remove path = .ok next) :
    Ready environment next := by
  cases hfile : pass.workspace.file? path with
  | none =>
    rw [remove, hfile] at hremove
    cases hremove
  | some file =>
    obtain ⟨hmem, hpath⟩ := Workspace.file?_mem hfile
    obtain ⟨found, hrun, hdropped⟩ := exists_dropped hready.stands hfile
    obtain rfl := Except.ok.inj (hrun.symm.trans hremove)
    refine ⟨hdropped.stands hready.stands, hdropped.bind ▸ hready.bind.remove path, ?_, ?_⟩
    · intro other hother
      rw [hdropped.bind, PathSet.mem_remove] at hother
      obtain ⟨old, hold, rfl⟩ := hready.present other hother.1
      exact ⟨old, hdropped.swapped.mem_of_ne hold hother.2, rfl⟩
    · exact hdropped.changed ▸ hready.changed.insert (hpath ▸ hready.stands.ordered.normal file hmem)

theorem Ready.writeBack (hready : Ready environment pass) (change : DiskChange) :
    Ready environment (pass.writeBack change) :=
  ⟨hready.stands, hready.bind, hready.present, hready.changed⟩

theorem ready_respell {entry : Path × List Replacement} (hready : Ready environment pass)
    (hrespell : respell environment pass entry = .ok next) : Ready environment next := by
  obtain rfl | ⟨text, edits, put, applied, change, hnormal, happly, -, rfl⟩ :=
    eq_or_applied_of_respell hready.stands hrespell
  · exact hready
  · exact (ready_applyText hready hnormal happly).writeBack change

/-- The file that moves waits at its new path, and its importers wait when they are spelled anew. -/
theorem ready_rename {workspace : Workspace} (hsound : workspace.Sound environment)
    {source target : Path} (hnormal : target.IsNormal) (hfree : workspace.file? target = none)
    (hrename : (ofWorkspace workspace).rename environment source target = .ok next) :
    Ready environment next := by
  obtain ⟨file, first, second, hfile, hrelocate, happly, hloop⟩ := rename_cases hrename
  obtain ⟨hmem, rfl⟩ := Workspace.file?_mem hfile
  have hstart := ready_ofWorkspace hsound
  obtain ⟨moved, found, put, applied, hrunFirst, -, hrunSecond, happlied, -, hstands, -⟩ :=
    exists_taken (sound_ofWorkspace hsound) hfile hnormal hfree (isSupported_of_applyText happly)
  obtain rfl := Except.ok.inj (hrunFirst.symm.trans hrelocate)
  obtain rfl := Except.ok.inj (hrunSecond.symm.trans happly)
  obtain ⟨graph, -, hmoved⟩ := exists_of_bind_eq_ok hrunFirst
  obtain rfl := Except.ok.inj hmoved
  have htaken : Ready environment applied :=
    happlied.ready hnormal hstands hstart.bind (fun _ hother => absurd hother List.not_mem_nil)
      hstart.changed
  refine rel_of_foldlM_eq_ok
    (fun before after => Ready environment before → Ready environment after) (fun _ => id)
    (fun hfirst hsecond => hsecond ∘ hfirst)
    (fun _ _ _ _ hrespell hready => ready_respell hready hrespell) hloop ?_
  exact ⟨htaken.stands, htaken.bind, htaken.present,
    (htaken.changed.insert (hstart.stands.ordered.normal file hmem)).insert hnormal⟩

/-- **Whatever the steps on single files note is ready to be worked off.** -/
theorem Pending.ready {workspace : Workspace} (hsound : workspace.Sound environment)
    (hpending : Pending environment workspace pass) : Ready environment pass := by
  induction hpending with
  | begin => exact ready_ofWorkspace hsound
  | text _ hnormal happly ih => exact ready_applyText ih hnormal happly
  | removal _ hremove ih => exact ready_remove ih hremove
  | move hnormal hfree hrename => exact ready_rename hsound hnormal hfree hrename
  | writeBack _ change ih => exact ih.writeBack change

end Steps

end Pass

end CodeGraph
