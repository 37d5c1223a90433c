import CodeGraph.Proofs.Text
import CodeGraph.Proofs.Workspace.Converge
import CodeGraph.Proofs.Workspace.Move
import CodeGraph.Transaction.Apply

/-!
# A validated change succeeds

Validation checks everything that the steps of a change rely on, so a change that was accepted runs
to its end, and the texts afterwards are the ones it asks for.
-/

namespace CodeGraph

/-! ### Texts -/

/-- A range that can be cut out of a text parts it in three, and the middle is what a splice
replaces. -/
theorem Change.exists_parts {range : ByteRange} {text : String} (hrange : isRangeOf range text)
    (replacement : String) : ∃ head removed tail, text = head ++ removed ++ tail ∧
      Text.size head = range.start ∧ range.start + Text.size removed = range.stop ∧
      Text.splice? text range.start range.stop replacement = some (head ++ replacement ++ tail) := by
  simp only [isRangeOf, Bool.and_eq_true, decide_eq_true_eq] at hrange
  obtain ⟨⟨⟨hle, -⟩, hstart⟩, hstop⟩ := hrange
  obtain ⟨removed, hslice⟩ := Text.exists_slice? hstart hstop hle
  obtain ⟨head, tail, rfl, hhead, hremoved⟩ := Text.exists_parts_of_slice? hslice
  refine ⟨head, removed, tail, rfl, hhead, hremoved, ?_⟩
  rw [← hremoved, ← hhead]
  exact Text.splice?_of_parts head removed tail replacement

namespace Change

/-! ### The step of a change -/

/-- What a change makes of a pass: one text is put at a path, one file is taken out, or one moves. The
first two are noted for the disk here, and a move notes what it does itself. -/
inductive Takes (environment : Environment) (pass : Pass) : Change → Pass → Prop
  | edit {path : Path} {range : ByteRange} {text content : String} {base : Option Nat}
    {file : SourceFile} {applied : Pass} (hfile : pass.workspace.file? path = some file)
    (hsplice : Text.splice? file.text range.start range.stop text = some content)
    (happly : pass.applyText environment path content [TextEdit.replace range (Text.size text)] =
      .ok applied) :
    Takes environment pass (edit path range text base) (applied.writeBack (.write path content))
  | add {path : Path} {content : String} {applied : Pass}
    (happly : pass.applyText environment path content [] = .ok applied) :
    Takes environment pass (add path content) (applied.writeBack (.write path content))
  | remove {path : Path} {dropped : Pass} (hremove : pass.remove path = .ok dropped) :
    Takes environment pass (remove path) (dropped.writeBack (.remove path))
  | rename {source target : Path} {moved : Pass}
    (hrename : pass.rename environment source target = .ok moved) :
    Takes environment pass (rename source target) moved

theorem takes_of_steps {environment : Environment} {pass next : Pass} {change : Change}
    (hsteps : change.steps environment pass = .ok next) : Takes environment pass change next := by
  cases change with
  | edit path range text base =>
    rw [steps] at hsteps
    split at hsteps
    · cases hsteps
    · rename_i file hfile
      split at hsteps
      · cases hsteps
      · rename_i content hsplice
        obtain ⟨applied, happly, hnext⟩ := exists_of_bind_eq_ok hsteps
        exact Except.ok.inj hnext ▸ .edit hfile hsplice happly
  | add path content =>
    obtain ⟨applied, happly, hnext⟩ := exists_of_bind_eq_ok hsteps
    exact Except.ok.inj hnext ▸ .add happly
  | remove path =>
    obtain ⟨dropped, hremove, hnext⟩ := exists_of_bind_eq_ok hsteps
    exact Except.ok.inj hnext ▸ .remove hremove
  | rename source target => exact .rename hsteps

/-! ### What it asks for -/

/-- The texts that a change asks for: an edit replaces one range of one text, a file that is added or
removed is the only one touched, and a file that moves takes its text along, while the imports of
its importers are spelled anew. -/
def Updates (config : Config) (before after : Workspace) : Change → Prop
  | edit target range text _ =>
    (∃ head removed tail, before.text? target = some (head ++ removed ++ tail) ∧
      Text.size head = range.start ∧ range.start + Text.size removed = range.stop ∧
      after.text? target = some (head ++ text ++ tail)) ∧
    ∀ path, path ≠ target → after.text? path = before.text? path
  | add target content =>
    before.text? target = none ∧ after.text? target = some content ∧
      ∀ path, path ≠ target → after.text? path = before.text? path
  | remove target =>
    (before.text? target).isSome ∧ after.text? target = none ∧
      ∀ path, path ≠ target → after.text? path = before.text? path
  | rename source target =>
    (before.text? source).isSome ∧ after.text? source = none ∧
      after.text? target = before.text? source ∧
      ∀ path, path ≠ source → path ≠ target → after.text? path =
        if path ∈ before.importersOf source then
          (before.file? path).map fun importer => (Replacement.applyAll importer.text
            (before.importerReplacements config source target importer)).1
        else before.text? path

/-! ### Validation -/

/-- What the steps of a change rely on. -/
def Admitted (workspace : Workspace) : Change → Prop
  | edit target range _ _ =>
    ∃ file, workspace.file? target = some file ∧ isRangeOf range file.text
  | add target _ =>
    target.IsNormal ∧ (Language.ofPath target).isSupported ∧ workspace.file? target = none
  | remove target => ∃ file, workspace.file? target = some file
  | rename source target =>
    (∃ file, workspace.file? source = some file) ∧ target.IsNormal ∧
      (Language.ofPath target).isSupported ∧ workspace.file? target = none

theorem inProject?_of_checkPath {config : Config} {path found : Path}
    (hfound : checkPath config path = .ok found) :
    Path.inProject? config.root path = some found := by
  rw [checkPath] at hfound
  split at hfound
  · rename_i inside hinside
    exact Except.ok.inj hfound ▸ hinside
  · cases hfound

theorem isNormal_of_checkPath {config : Config} {path found : Path}
    (hfound : checkPath config path = .ok found) : found.IsNormal :=
  Path.isNormal_of_inProject? (inProject?_of_checkPath hfound)

theorem file?_of_checkPresent {workspace : Workspace} {path : Path} {file : SourceFile}
    (hfile : checkPresent workspace path = .ok file) : workspace.file? path = some file := by
  rw [checkPresent] at hfile
  split at hfile
  · rename_i found hfound
    obtain rfl := Except.ok.inj hfile
    exact hfound
  · cases hfile

theorem file?_of_checkAbsent {workspace : Workspace} {path : Path}
    (habsent : checkAbsent workspace path = .ok ()) : workspace.file? path = none := by
  rw [checkAbsent] at habsent
  split at habsent
  · cases habsent
  · rename_i hnot
    simpa [Workspace.contains] using hnot

theorem isSupported_of_checkSupported {path : Path} (hsupported : checkSupported path = .ok ()) :
    (Language.ofPath path).isSupported := by
  rw [checkSupported] at hsupported
  split at hsupported
  · assumption
  · cases hsupported

theorem isRangeOf_of_checkRange {file : SourceFile} {range : ByteRange}
    (hrange : checkRange file range = .ok ()) : isRangeOf range file.text := by
  rw [checkRange] at hrange
  split at hrange
  · assumption
  · cases hrange

/-- **Validation checks what the steps rely on.** -/
theorem admitted_of_validate {config : Config} {workspace : Workspace} {queuedAt : Nat}
    {change checked : Change}
    (hvalid : change.validate config workspace queuedAt = .ok checked) :
    checked.Admitted workspace := by
  cases change with
  | edit path range text base =>
    obtain ⟨target, -, hrest⟩ := exists_of_bind_eq_ok hvalid
    obtain ⟨file, hfile, hrest⟩ := exists_of_bind_eq_ok hrest
    obtain ⟨⟨⟩, hrange, hrest⟩ := exists_of_bind_eq_ok hrest
    obtain ⟨⟨⟩, -, hrest⟩ := exists_of_bind_eq_ok hrest
    obtain rfl := Except.ok.inj hrest
    exact ⟨file, file?_of_checkPresent hfile, isRangeOf_of_checkRange hrange⟩
  | add path content =>
    obtain ⟨target, htarget, hrest⟩ := exists_of_bind_eq_ok hvalid
    obtain ⟨⟨⟩, hsupported, hrest⟩ := exists_of_bind_eq_ok hrest
    obtain ⟨⟨⟩, habsent, hrest⟩ := exists_of_bind_eq_ok hrest
    obtain rfl := Except.ok.inj hrest
    exact ⟨isNormal_of_checkPath htarget, isSupported_of_checkSupported hsupported,
      file?_of_checkAbsent habsent⟩
  | remove path =>
    obtain ⟨target, -, hrest⟩ := exists_of_bind_eq_ok hvalid
    obtain ⟨file, hfile, hrest⟩ := exists_of_bind_eq_ok hrest
    obtain rfl := Except.ok.inj hrest
    exact ⟨file, file?_of_checkPresent hfile⟩
  | rename source target =>
    obtain ⟨source, -, hrest⟩ := exists_of_bind_eq_ok hvalid
    obtain ⟨target, htarget, hrest⟩ := exists_of_bind_eq_ok hrest
    obtain ⟨file, hfile, hrest⟩ := exists_of_bind_eq_ok hrest
    obtain ⟨⟨⟩, habsent, hrest⟩ := exists_of_bind_eq_ok hrest
    obtain ⟨⟨⟩, hsupported, hrest⟩ := exists_of_bind_eq_ok hrest
    obtain rfl := Except.ok.inj hrest
    exact ⟨⟨file, file?_of_checkPresent hfile⟩, isNormal_of_checkPath htarget,
      isSupported_of_checkSupported hsupported, file?_of_checkAbsent habsent⟩

/-! ### Steps -/

section Steps

variable {environment : Environment} {workspace : Workspace}

/-- What the steps of a change do to the workspace. -/
structure Stepped (environment : Environment) (workspace : Workspace) (change : Change)
    (pass : Pass) : Prop where
  stands : pass.workspace.Stands environment (fun _ => False) (· ∈ pass.bind)
  sequence : pass.sequence = workspace.sequence + 1
  updates : change.Updates environment.config workspace pass.workspace

theorem exists_edited (hsound : workspace.Sound environment) {target : Path} {range : ByteRange}
    {text : String} {base : Option Nat}
    (hadmitted : (edit target range text base).Admitted workspace) :
    ∃ pass, (edit target range text base).steps environment (Pass.ofWorkspace workspace) =
      .ok pass ∧ Stepped environment workspace (edit target range text base) pass := by
  obtain ⟨file, hfile, hrange⟩ := hadmitted
  obtain ⟨hmem, rfl⟩ := Workspace.file?_mem hfile
  have hstart := Pass.sound_ofWorkspace hsound
  obtain ⟨head, removed, tail, htext, hhead, hremoved, hsplice⟩ := exists_parts hrange text
  obtain ⟨put, pass, hrun, happlied⟩ := Pass.exists_applyText hstart
    (hsound.ordered.normal file hmem)
    (Pass.isSupported_of_current (hsound.drawn file hmem not_false).2) (head ++ text ++ tail)
    [TextEdit.replace range (Text.size text)]
  have hstands := happlied.stands (Pass.stands_ofWorkspace hsound)
  have htexts := happlied.swapped.text? hstart.ordered
  refine ⟨pass.writeBack (.write file.path (head ++ text ++ tail)), ?_,
    hstands.mono (fun _ _ h => h.1) fun _ _ h => h, happlied.sequence,
    ⟨head, removed, tail, ?_, hhead, hremoved, ?_⟩, fun path hne => ?_⟩
  · have hfile' : (Pass.ofWorkspace workspace).workspace.file? file.path = some file := hfile
    simp only [steps, hfile', hsplice, hrun, ok_bind]
    rfl
  · rw [Workspace.text?, hfile, ← htext]
    rfl
  · refine (htexts file.path).trans ?_
    rw [if_pos rfl, Option.map_some, happlied.text_eq]
  · exact (htexts path).trans (if_neg hne)

theorem exists_added (hsound : workspace.Sound environment) {target : Path} {content : String}
    (hadmitted : (add target content).Admitted workspace) :
    ∃ pass, (add target content).steps environment (Pass.ofWorkspace workspace) = .ok pass ∧
      Stepped environment workspace (add target content) pass := by
  obtain ⟨hnormal, hsupported, habsent⟩ := hadmitted
  have hstart := Pass.sound_ofWorkspace hsound
  obtain ⟨put, pass, hrun, happlied⟩ :=
    Pass.exists_applyText hstart hnormal hsupported content []
  have hstands := happlied.stands (Pass.stands_ofWorkspace hsound)
  have htexts := happlied.swapped.text? hstart.ordered
  refine ⟨pass.writeBack (.write target content), ?_, hstands.mono (fun _ _ h => h.1) fun _ _ h => h,
    happlied.sequence, ?_, ?_, fun path hne => ?_⟩
  · simp only [steps, hrun, ok_bind]
    rfl
  · rw [Workspace.text?, habsent]
    rfl
  · refine (htexts target).trans ?_
    rw [if_pos rfl, Option.map_some, happlied.text_eq]
  · exact (htexts path).trans (if_neg hne)

theorem exists_removed (hsound : workspace.Sound environment) {target : Path}
    (hadmitted : (remove target).Admitted workspace) :
    ∃ pass, (remove target).steps environment (Pass.ofWorkspace workspace) = .ok pass ∧
      Stepped environment workspace (remove target) pass := by
  obtain ⟨file, hfile⟩ := hadmitted
  have hstart := Pass.sound_ofWorkspace hsound
  have hfile' : (Pass.ofWorkspace workspace).workspace.file? target = some file := hfile
  obtain ⟨pass, hrun, hdropped⟩ := Pass.exists_dropped hstart hfile'
  have hstands := hdropped.stands (Pass.stands_ofWorkspace hsound)
  have htexts := hdropped.swapped.text? hstart.ordered
  refine ⟨pass.writeBack (.remove target), ?_, hstands, hdropped.sequence, ?_, ?_,
    fun path hne => ?_⟩
  · simp only [steps, hrun, ok_bind]
    rfl
  · rw [Workspace.text?, hfile]
    rfl
  · exact (htexts target).trans (if_pos rfl)
  · exact (htexts path).trans (if_neg hne)

theorem exists_renamed (hsound : workspace.Sound environment) {source target : Path}
    (hadmitted : (rename source target).Admitted workspace) :
    ∃ pass, (rename source target).steps environment (Pass.ofWorkspace workspace) = .ok pass ∧
      Stepped environment workspace (rename source target) pass := by
  obtain ⟨⟨file, hfile⟩, hnormal, hsupported, habsent⟩ := hadmitted
  obtain ⟨hmem, rfl⟩ := Workspace.file?_mem hfile
  have hne : file.path ≠ target := by
    rintro rfl
    rw [hfile] at habsent
    cases habsent
  have hfile' : (Pass.ofWorkspace workspace).workspace.file? file.path = some file := hfile
  obtain ⟨pass, hrun, hrewrites⟩ := Pass.exists_rename (Pass.sound_ofWorkspace hsound) hfile' hnormal
    habsent hsupported
  have htexts : ∀ path, pass.workspace.text? path =
      workspace.textAfterRename environment.config file.path target file path := hrewrites.texts
  refine ⟨pass, hrun, hrewrites.stands, hrewrites.sequence, ?_, ?_, ?_,
    fun path hpath hpath' => ?_⟩
  · rw [Workspace.text?, hfile]
    rfl
  · rw [htexts, Workspace.textAfterRename, if_neg hne, if_pos rfl]
  · rw [htexts, Workspace.textAfterRename, if_pos rfl, Workspace.text?, hfile]
    rfl
  · rw [htexts, Workspace.textAfterRename, if_neg hpath', if_neg hpath]
    split
    · rfl
    · rename_i hnot
      rw [Workspace.text?]
      cases hother : workspace.file? path with
      | none => rfl
      | some other =>
        obtain ⟨hotherMem, rfl⟩ := Workspace.file?_mem hother
        rw [Option.map_some, Option.map_some, Workspace.Sound.importerReplacements_eq_nil hsound
          target (hsound.ordered.normal file hmem) hotherMem hpath hnot]
        rfl

theorem exists_steps (hsound : workspace.Sound environment) {change : Change}
    (hadmitted : change.Admitted workspace) :
    ∃ pass, change.steps environment (Pass.ofWorkspace workspace) = .ok pass ∧
      Stepped environment workspace change pass := by
  cases change with
  | edit target range text base => exact exists_edited hsound hadmitted
  | add target content => exact exists_added hsound hadmitted
  | remove target => exact exists_removed hsound hadmitted
  | rename source target => exact exists_renamed hsound hadmitted

theorem Updates.of_files {config : Config} {before after last : Workspace} {change : Change}
    (hupdates : change.Updates config before after) (hfiles : last.files = after.files) :
    change.Updates config before last := by
  have htext : last.text? = after.text? := by
    funext path
    rw [Workspace.text?, Workspace.file?, hfiles, Workspace.text?, Workspace.file?]
  cases change <;> simpa only [Updates, htext] using hupdates

/-- **A validated change runs to its end.** -/
theorem exists_run (hsound : workspace.Sound environment) {change : Change}
    (hadmitted : change.Admitted workspace) :
    ∃ outcome, change.run environment workspace = .ok outcome ∧
      outcome.workspace.Sound environment ∧ outcome.workspace.Tended ∧
      outcome.workspace.sequence = workspace.sequence + 1 ∧
      change.Updates environment.config workspace outcome.workspace := by
  obtain ⟨pass, hsteps, hstepped⟩ := exists_steps hsound hadmitted
  obtain ⟨outcome, hconverge, hconverged⟩ := Pass.exists_converge hstepped.stands
  refine ⟨outcome, ?_, hconverged.sound, hconverged.tended,
    hconverged.sequence.trans hstepped.sequence, hstepped.updates.of_files hconverged.files⟩
  rw [run, hsteps]
  exact hconverge

/-- A run is the steps of the change, and a pass that converges. -/
theorem exists_pass (hsound : workspace.Sound environment) {change : Change}
    {outcome : Pass.Outcome} (hadmitted : change.Admitted workspace)
    (hrun : change.run environment workspace = .ok outcome) :
    ∃ pass, change.steps environment (Pass.ofWorkspace workspace) = .ok pass ∧
      pass.workspace.Stands environment (fun _ => False) (· ∈ pass.bind) ∧
      Pass.Converged environment pass outcome := by
  obtain ⟨pass, hsteps, hstepped⟩ := exists_steps hsound hadmitted
  obtain ⟨found, hconverge, hconverged⟩ := Pass.exists_converge hstepped.stands
  rw [run, hsteps, ok_bind, hconverge] at hrun
  exact ⟨pass, hsteps, hstepped.stands, Except.ok.inj hrun ▸ hconverged⟩

end Steps

end Change

end CodeGraph
