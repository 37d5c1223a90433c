import CodeGraph.Proofs.Transaction.Members
import CodeGraph.Proofs.Workspace.Settle

/-!
# The work of passes on a store

Every pass that a transaction, a resync or a build makes is one that steps on single files make of a
store, and in all of these the rounds of binding end, with no file bound that does not have to be.
-/

namespace CodeGraph

/-! ### The passes there are -/

theorem Change.pending_of_steps {environment : Environment} {workspace : Workspace} {queuedAt : Nat}
    {change checked : Change} {pass : Pass} (hsound : workspace.Sound environment)
    (hvalid : change.validate environment.config workspace queuedAt = .ok checked)
    (hsteps : checked.steps environment (Pass.ofWorkspace workspace) = .ok pass) :
    pass.Pending environment workspace := by
  have hadmitted := admitted_of_validate hvalid
  cases takes_of_steps hsteps with
  | edit hfile _ happly =>
    obtain ⟨hmem, rfl⟩ := Workspace.file?_mem hfile
    exact .writeBack (.text .begin (hsound.ordered.normal _ hmem) happly) _
  | add happly => exact .writeBack (.text .begin hadmitted.1 happly) _
  | remove hremove => exact .writeBack (.removal .begin hremove) _
  | rename hrename => exact .move hadmitted.2.1 hadmitted.2.2.2 hrename

/-- A build brings one file after the other into the empty workspace. -/
theorem Workspace.pending_of_build {environment : Environment} {sources : List Source} {pass : Pass}
    (hbuild : (chosenSources environment.config sources).foldlM (fun pass source =>
      pass.applyText environment source.path source.text []) (Pass.ofWorkspace .empty) = .ok pass) :
    pass.Pending environment .empty := by
  have hkeeps : ∀ source ∈ chosenSources environment.config sources, ∀ before after : Pass,
      before.applyText environment source.path source.text [] = .ok after →
      before.Pending environment .empty → after.Pending environment .empty :=
    fun source hsource _ _ happly hpending =>
      .text hpending (of_mem_chosenSources hsource).1 happly
  exact rel_of_foldlM_eq_ok
    (fun before after => before.Pending environment .empty → after.Pending environment .empty)
    (fun _ => id) (fun hfirst hsecond => hsecond ∘ hfirst) hkeeps hbuild .begin

namespace Store

variable {environment : Environment} {store : Store}

/-- **The rounds of binding end, and bind what has to be bound.** Whatever steps on single files made
of a reachable store, the loop ends before its turns run out, after at most one round more than there
are files, each of which binds no more files than there are. No file is passed on twice. The files
that are bound are the least set with those that wait, the importers of every changed file, and the
importers of every file in the set that is there and exposes its imports. -/
theorem settles_awaited (hreachable : store.Reachable environment) {pass : Pass}
    (hpending : pass.Pending environment store.workspace) :
    ∃ rounds passed bound last, pass.Settles [] rounds passed bound last ∧
      Pass.settle pass.enoughRounds pass [] = .ok last ∧
      rounds ≤ pass.workspace.files.length + 1 ∧
      bound.length ≤ rounds * pass.workspace.files.length ∧
      passed.Nodup ∧ ∀ path, path ∈ bound ↔ pass.Awaits path := by
  have hready := hpending.ready hreachable.kept.sound
  obtain ⟨rounds, passed, bound, last, hrun, hrounds⟩ :=
    Pass.exists_settles pass.enoughRounds [] hready.stands (Pass.roundsLeft_enoughRounds pass)
  obtain ⟨hnodup, -, hlength⟩ := hrun.bounded hready
  exact ⟨rounds, passed, bound, last, hrun, hrun.settle_eq hrounds, Nat.le_of_lt_succ hrounds,
    hlength, hnodup, hrun.mem_bound_iff hready.stands⟩

open Circular Importing

/-- A file is brought up to date with its own text. It exposes its imports, so the file that imports
it is bound as well; that one it imports in turn, and yet neither is passed on twice. -/
theorem settles_awaited_circular : ∃ pass rounds passed bound last,
    (Pass.ofWorkspace circular.workspace).applyText parsing ⟨"a.py"⟩
      "from b import B\nclass A(B):\n  pass\n" [] = .ok pass ∧
    pass.Settles [] rounds passed bound last ∧ Pass.settle pass.enoughRounds pass [] = .ok last ∧
    passed.Nodup ∧ ⟨"a.py"⟩ ∈ bound ∧ ⟨"b.py"⟩ ∈ bound := by
  have hreachable : circular.Reachable parsing := reachable_imported ..
  have hnormal : Path.IsNormal ⟨"a.py"⟩ :=
    Path.isNormal_of_inProject? (by decide : Path.inProject? ⟨""⟩ ⟨"a.py"⟩ = some ⟨"a.py"⟩)
  generalize hrun : (Pass.ofWorkspace circular.workspace).applyText parsing ⟨"a.py"⟩
    "from b import B\nclass A(B):\n  pass\n" [] = result
  have hseen : result.toOption.any fun pass => decide (⟨"a.py"⟩ ∈ pass.bind ∧
      ⟨"b.py"⟩ ∈ pass.workspace.importersOf ⟨"a.py"⟩ ∧
      (pass.workspace.file? ⟨"a.py"⟩).any SourceFile.exposesImports) := by
    rw [← hrun]
    decide +kernel
  cases result with
  | error error => cases hseen
  | ok pass =>
    obtain ⟨hwaits, himporter, hexposes⟩ := of_decide_eq_true hseen
    obtain ⟨rounds, passed, bound, last, hsettles, hsettle, -, -, hnodup, hbound⟩ :=
      settles_awaited hreachable (.text .begin hnormal hrun)
    have hown : pass.Awaits ⟨"a.py"⟩ := .waiting hwaits
    exact ⟨pass, rounds, passed, bound, last, rfl, hsettles, hsettle, hnodup, (hbound _).2 hown,
      (hbound _).2 (.exposed hown hexposes himporter)⟩

end Store

end CodeGraph
