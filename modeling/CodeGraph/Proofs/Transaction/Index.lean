import CodeGraph.Proofs.Disk.Place
import CodeGraph.Proofs.Transaction.Evolve
import CodeGraph.Proofs.Transaction.Settle

/-!
# The index of importers

The steps on single files add to the index of importers and take from it at different moments, under
the path that a file has then. Between passes the index lists for every place the files that are there
with an import that may point to it, whether or not a file is at the place, and it keeps no place
that no import points to.
-/

namespace CodeGraph

namespace Workspace

/-! ### What is done to the index -/

/-- The indices that come of one by entering importers at places and taking them out again. -/
inductive Reindexed (before : Table Path PathSet) : Table Path PathSet → Prop
  | refl : Reindexed before before
  | index {importers : Table Path PathSet} (h : Reindexed before importers) (importer place : Path) :
    Reindexed before (indexPlace importer importers place)
  | unindex {importers : Table Path PathSet} (h : Reindexed before importers)
    (importer place : Path) : Reindexed before (unindexPlace importer importers place)

theorem Reindexed.trans {first second third : Table Path PathSet} (hfirst : Reindexed first second)
    (hsecond : Reindexed second third) : Reindexed first third := by
  induction hsecond with
  | refl => exact hfirst
  | index _ importer place ih => exact ih.index importer place
  | unindex _ importer place ih => exact ih.unindex importer place

theorem reindexed_indexPlans (workspace : Workspace) (importer : Path) (plans : List ModulePlan) :
    Reindexed workspace.importers (workspace.indexPlans importer plans).importers :=
  List.foldlRecOn (motive := Reindexed workspace.importers) _ _ .refl
    fun _ hreindexed place _ => hreindexed.index importer place

theorem reindexed_unindexPlans (workspace : Workspace) (importer : Path) (plans : List ModulePlan) :
    Reindexed workspace.importers (workspace.unindexPlans importer plans).importers :=
  List.foldlRecOn (motive := Reindexed workspace.importers) _ _ .refl
    fun _ hreindexed place _ => hreindexed.unindex importer place

/-- Every place stands once in the index, and only with importers. -/
structure Trim (importers : Table Path PathSet) : Prop where
  keyed : importers.Keyed
  nonempty : ∀ place set, importers.get? place = some set → set ≠ []

theorem trim_empty : Trim Table.empty :=
  ⟨Table.keyed_empty, fun place set hget => by rw [Table.get?_empty] at hget; cases hget⟩

theorem Trim.indexPlace {importers : Table Path PathSet} (htrim : Trim importers)
    (importer place : Path) : Trim (indexPlace importer importers place) := by
  refine ⟨htrim.keyed.put _ _, fun other set hget => ?_⟩
  rw [Workspace.indexPlace, Table.get?_put] at hget
  split at hget
  · have hmem : importer ∈ set := by
      rw [← Option.some.inj hget]
      exact PathSet.mem_insert.2 (.inl rfl)
    exact List.ne_nil_of_mem hmem
  · exact htrim.nonempty other set hget

/-- A place that loses its last importer goes with it. -/
theorem Trim.unindexPlace {importers : Table Path PathSet} (htrim : Trim importers)
    (importer place : Path) : Trim (unindexPlace importer importers place) := by
  rw [Workspace.unindexPlace]
  split
  · exact htrim
  · split
    · refine ⟨htrim.keyed.erase _, fun other set hget => ?_⟩
      rw [Table.get?_erase] at hget
      split at hget
      · cases hget
      · exact htrim.nonempty other set hget
    · rename_i hleft
      refine ⟨htrim.keyed.put _ _, fun other set hget => ?_⟩
      rw [Table.get?_put] at hget
      split at hget
      · obtain rfl := Option.some.inj hget
        exact hleft
      · exact htrim.nonempty other set hget

theorem Trim.reindexed {before after : Table Path PathSet} (htrim : Trim before)
    (hreindexed : Reindexed before after) : Trim after := by
  induction hreindexed with
  | refl => exact htrim
  | index _ importer place ih => exact ih.indexPlace importer place
  | unindex _ importer place ih => exact ih.unindexPlace importer place

end Workspace

/-! ### What a pass does to it -/

namespace Pass

open Workspace

variable {environment : Environment} {pass next : Pass}

theorem reindexed_withdrawAt (workspace : Workspace) (path : Path) :
    Reindexed workspace.importers (withdrawAt workspace path).importers := by
  rw [withdrawAt]
  split
  · exact reindexed_unindexPlans _ _ _
  · exact .refl

theorem reindexed_applyText {path : Path} {text : String} {edits : List TextEdit}
    (happly : applyText environment pass path text edits = .ok next) :
    Reindexed pass.workspace.importers next.workspace.importers := by
  rw [applyText] at happly
  obtain ⟨parsed, -, hinstall⟩ := exists_of_bind_eq_ok happly
  obtain ⟨⟨graph, node, symbols, imports⟩, -, hnext⟩ :=
    exists_of_bind_eq_ok (eq_ok_of_mapError_eq_ok hinstall)
  obtain rfl := Except.ok.inj hnext
  exact (reindexed_withdrawAt pass.workspace path).trans (reindexed_indexPlans _ _ _)

theorem reindexed_remove {path : Path} (hremove : pass.remove path = .ok next) :
    Reindexed pass.workspace.importers next.workspace.importers := by
  obtain ⟨file, graph, -, -, rfl⟩ := remove_cases hremove
  exact reindexed_unindexPlans _ _ _

/-- A file that is relocated is taken out under its old path and not yet entered under the new. -/
theorem reindexed_relocate {file : SourceFile} {target : Path}
    (hrelocate : pass.relocate file target = .ok next) :
    Reindexed pass.workspace.importers next.workspace.importers := by
  obtain ⟨graph, -, hnext⟩ := exists_of_bind_eq_ok hrelocate
  obtain rfl := Except.ok.inj hnext
  exact reindexed_unindexPlans _ _ _

theorem reindexed_respell {entry : Path × List Replacement}
    (hrespell : respell environment pass entry = .ok next) :
    Reindexed pass.workspace.importers next.workspace.importers := by
  obtain rfl | ⟨file, applied, -, happly, rfl⟩ := respell_cases hrespell
  · exact .refl
  · have happlied := reindexed_applyText happly
    exact happlied

theorem reindexed_rename {source target : Path}
    (hrename : pass.rename environment source target = .ok next) :
    Reindexed pass.workspace.importers next.workspace.importers := by
  obtain ⟨file, moved, applied, -, hrelocate, happly, hloop⟩ := rename_cases hrename
  have hmoved := reindexed_relocate hrelocate
  have happlied := reindexed_applyText happly
  have hrespelled := rel_of_foldlM_eq_ok (fun before after : Pass =>
    Reindexed before.workspace.importers after.workspace.importers) (fun _ => .refl) .trans
    (fun entry _ state next => reindexed_respell) hloop
  exact (hmoved.trans happlied).trans hrespelled

/-- **Steps on single files only enter importers in the index and take them out.** -/
theorem Pending.reindexed {workspace : Workspace} (hpending : Pending environment workspace pass) :
    Reindexed workspace.importers pass.workspace.importers := by
  induction hpending with
  | begin => exact .refl
  | text _ _ happly ih => exact ih.trans (reindexed_applyText happly)
  | removal _ hremove ih => exact ih.trans (reindexed_remove hremove)
  | move _ _ hrename => exact reindexed_rename hrename
  | writeBack _ _ ih => exact ih

/-- Converging leaves the index alone. -/
theorem Pending.reindexed_converge {workspace : Workspace} {outcome : Outcome}
    (hpending : Pending environment workspace pass) (hconverge : pass.converge = .ok outcome) :
    Reindexed workspace.importers outcome.workspace.importers := by
  obtain ⟨-, himporters, -⟩ := evolves_converge hconverge
  exact himporters ▸ hpending.reindexed

end Pass

/-! ### What it lists between passes -/

namespace Workspace

variable {environment : Environment} {workspace : Workspace}

theorem mem_placesOf {plans : List ModulePlan} {place : Path} : place ∈ placesOf plans ↔
    ∃ plan ∈ plans, ∃ candidate ∈ plan.all, candidate.path = place := by
  simp only [placesOf, List.mem_map, List.mem_flatMap]
  constructor
  · rintro ⟨candidate, ⟨plan, hplan, hcandidate⟩, hplace⟩
    exact ⟨plan, hplan, candidate, hcandidate, hplace⟩
  · rintro ⟨plan, hplan, candidate, hcandidate, hplace⟩
    exact ⟨candidate, ⟨plan, hplan, hcandidate⟩, hplace⟩

theorem mem_indexedAt {place path : Path} : path ∈ workspace.indexedAt place ↔
    ∃ set, workspace.importers.get? place = some set ∧ path ∈ set := by
  rw [indexedAt]
  cases workspace.importers.get? place with
  | none => simp
  | some set => simp

/-- The index read at a place in any spelling. -/
theorem Sound.mem_indexedAt_tidy (hsound : workspace.Sound environment) {place path : Path} :
    path ∈ workspace.indexedAt place.tidy ↔ ∃ file, workspace.file? path = some file ∧
      ∃ plan ∈ file.plans, ∃ candidate ∈ plan.all, candidate.path.same place := by
  constructor
  · intro hpath
    obtain ⟨file, hfile, rfl, hplace⟩ := hsound.indexed.only _ _ hpath
    obtain ⟨plan, hplan, candidate, hcandidate, hplace⟩ := mem_placesOf.1 hplace
    have hplain := hsound.isPlain_of_mem_plans hfile hplan hcandidate
    exact ⟨file, hsound.ordered.file?_iff.2 ⟨hfile, rfl⟩, plan, hplan, candidate, hcandidate,
      hplain.eq_tidy_iff.1 hplace⟩
  · rintro ⟨file, hfile, plan, hplan, candidate, hcandidate, hsame⟩
    obtain ⟨hmem, rfl⟩ := file?_mem hfile
    have hplain := hsound.isPlain_of_mem_plans hmem hplan hcandidate
    exact hsound.indexed.all file hmem id _
      (mem_placesOf.2 ⟨plan, hplan, candidate, hcandidate, hplain.eq_tidy_iff.2 hsame⟩)

/-- **The importers of a path**, in any spelling and with or without a file there: the other files
with an import that may point to it or to the directory around it. -/
theorem Sound.mem_importersOf_tidy (hsound : workspace.Sound environment) {path other : Path} :
    other ∈ workspace.importersOf path.tidy ↔ ∃ file, workspace.file? other = some file ∧
      ¬ other.same path ∧ ∃ plan ∈ file.plans, ∃ candidate ∈ plan.all,
        candidate.path.same path ∨ path.parent?.any candidate.path.same := by
  have hdirectory : (∃ directory, path.tidy.parent? = some directory ∧
        other ∈ workspace.indexedAt directory) ↔ ∃ file, workspace.file? other = some file ∧
      ∃ plan ∈ file.plans, ∃ candidate ∈ plan.all, path.parent?.any candidate.path.same := by
    rw [Path.parent?_tidy]
    cases hparent : path.parent? with
    | none => simp
    | some directory =>
      have hmem : other ∈ workspace.indexedAt directory.tidy ↔ _ := hsound.mem_indexedAt_tidy
      rw [Path.tidy_of_parent? hparent] at hmem
      simpa using hmem
  have hother : ∀ file, workspace.file? other = some file → (other ≠ path.tidy ↔
      ¬ other.same path) := fun file hfile => by
    obtain ⟨hmem, rfl⟩ := file?_mem hfile
    exact not_congr (hsound.ordered.normal file hmem).isPlain.eq_tidy_iff
  rw [mem_importersOf, hsound.mem_indexedAt_tidy, hdirectory]
  constructor
  · rintro ⟨⟨file, hfile, plan, hplan, candidate, hcandidate, hsame⟩ |
      ⟨file, hfile, plan, hplan, candidate, hcandidate, hsame⟩, hne⟩
    · exact ⟨file, hfile, (hother file hfile).1 hne, plan, hplan, candidate, hcandidate, .inl hsame⟩
    · exact ⟨file, hfile, (hother file hfile).1 hne, plan, hplan, candidate, hcandidate, .inr hsame⟩
  · rintro ⟨file, hfile, hne, plan, hplan, candidate, hcandidate, hsame | hsame⟩
    · exact ⟨.inl ⟨file, hfile, plan, hplan, candidate, hcandidate, hsame⟩, (hother file hfile).2 hne⟩
    · exact ⟨.inr ⟨file, hfile, plan, hplan, candidate, hcandidate, hsame⟩, (hother file hfile).2 hne⟩

end Workspace

/-- A file that would do is at the candidate's path or in its directory. -/
theorem Candidate.same_or_of_accepts {candidate : Candidate} {path : Path}
    (haccepts : candidate.accepts path) :
    candidate.path.same path ∨ path.parent?.any candidate.path.same := by
  cases candidate with
  | file wanted => exact .inl haccepts
  | package directory => exact .inr haccepts

namespace Store

variable {environment : Environment} {store : Store}

/-- By induction on the run: a pass begins with the index that the one before left. -/
theorem Reachable.reindexed (hreachable : store.Reachable environment) :
    Workspace.Reindexed Table.empty store.workspace.importers := by
  induction hreachable with
  | empty disk => exact .refl
  | build disk hbuild =>
    obtain ⟨pass, hloop, hrest⟩ := exists_of_bind_eq_ok hbuild
    obtain ⟨outcome, hconverge, hworkspace⟩ := exists_of_bind_eq_ok hrest
    obtain rfl := Except.ok.inj hworkspace
    exact (Workspace.pending_of_build hloop).reindexed_converge hconverge
  | @process store hstore queuedAt change ih =>
    obtain hsame | ⟨checked, outcome, hvalid, hrun, hworkspace, -⟩ :=
      workspace_process environment store queuedAt change
    · exact hsame ▸ ih
    · obtain ⟨pass, hsteps, hconverge⟩ := exists_of_bind_eq_ok hrun
      have hpending := Change.pending_of_steps hstore.kept.sound hvalid hsteps
      exact hworkspace ▸ ih.trans (hpending.reindexed_converge hconverge)
  | @resync store next path mutations _ hresync ih =>
    obtain ⟨found, file, pass, outcome, hfound, -, happly, hconverge, -, rfl⟩ :=
      exists_of_resync hresync
    have hpending : pass.Pending environment store.workspace :=
      .text .begin (Path.isNormal_of_inProject? hfound) happly
    split
    · exact ih
    · exact ih.trans (hpending.reindexed_converge hconverge)

/-- **The index of importers is exact.** In every reachable store it lists a file at a place if and
only if the file is there and one of its imports has a candidate for the module or for the member with
that path. Each place stands once, and none without importers. Whatever path is asked for, all other
files with a candidate that accepts the path are among its importers. Paths are compared by their
components, which the one spelling of a path stands for. -/
theorem importers_exact (hreachable : store.Reachable environment) :
    (∀ place path, (∃ set, store.workspace.importers.get? place.tidy = some set ∧ path ∈ set) ↔
      ∃ file, store.workspace.file? path = some file ∧ ∃ plan ∈ file.plans, ∃ candidate,
        (candidate ∈ plan.candidates ∨ candidate ∈ plan.memberCandidates) ∧
          candidate.path.same place) ∧
    store.workspace.importers.Keyed ∧
    (∀ entry ∈ store.workspace.importers.entries, entry.2 ≠ []) ∧
    ∀ path, ∀ file ∈ store.workspace.files, ¬ file.path.same path →
      ∀ plan ∈ file.plans, ∀ candidate ∈ plan.all, candidate.accepts path →
        file.path ∈ store.workspace.importersOf path.tidy := by
  have hsound := hreachable.kept.sound
  have htrim := Workspace.trim_empty.reindexed hreachable.reindexed
  refine ⟨fun place path => ?_, htrim.keyed, fun entry hentry => ?_, ?_⟩
  · rw [← Workspace.mem_indexedAt, hsound.mem_indexedAt_tidy]
    simp only [ModulePlan.all, List.mem_append]
  · exact htrim.nonempty entry.1 entry.2 (htrim.keyed.mem_entries_iff.1 hentry)
  · intro path file hfile hne plan hplan candidate hcandidate haccepts
    have hfile? := hsound.ordered.file?_iff.2 ⟨hfile, rfl⟩
    exact hsound.mem_importersOf_tidy.2 ⟨file, hfile?, hne, plan, hplan, candidate, hcandidate,
      candidate.same_or_of_accepts haccepts⟩

open Importing

/-- A file that has been removed still has its importer, which is asked for in another spelling. -/
theorem importers_exact_removed :
    let store := (process python
      (imported python ⟨⟨"a.py"⟩, "f = 1\n"⟩ ⟨⟨"b.py"⟩, "from a import f\n"⟩) 2 (.remove ⟨"a.py"⟩)).1
    store.workspace.file? ⟨"a.py"⟩ = none ∧
      ⟨"b.py"⟩ ∈ store.workspace.importersOf (Path.tidy ⟨"a.py/"⟩) := by
  intro store
  have hreachable : store.Reachable python := .process (reachable_imported ..) 2 _
  obtain ⟨-, -, -, himporters⟩ := importers_exact hreachable
  obtain ⟨file, hfile, hne, plan, hplan, candidate, hcandidate, haccepts⟩ :
      ∃ file ∈ store.workspace.file? ⟨"b.py"⟩, ¬ file.path.same ⟨"a.py/"⟩ ∧ ∃ plan ∈ file.plans,
        ∃ candidate ∈ plan.all, candidate.accepts ⟨"a.py/"⟩ := by decide +kernel
  obtain ⟨hmem, hpath⟩ := Workspace.file?_mem hfile
  exact ⟨by decide +kernel, hpath ▸ himporters ⟨"a.py/"⟩ file hmem hne plan hplan candidate
    hcandidate haccepts⟩

end Store

end CodeGraph
