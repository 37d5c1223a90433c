import CodeGraph.Proofs.Disk.Mirror
import CodeGraph.Proofs.Workspace.History
import CodeGraph.Proofs.Workspace.Move

/-!
# What a pass writes

A pass notes for the disk what it does to the texts: the changes that it noted, made one after the
other, turn the texts before the pass into those after it. A file that is removed or moved was
there, and the importers that are written along with a move stay where they are.
-/

namespace CodeGraph

namespace Workspace

theorem Ordered.text?_iff {workspace : Workspace} (hordered : Ordered workspace.files) {path : Path}
    {text : String} : workspace.text? path = some text ↔
      ∃ file ∈ workspace.files, file.path = path ∧ file.text = text := by
  rw [text?, Option.map_eq_some_iff]
  simp only [hordered.file?_iff, and_assoc]

/-- A file that takes the place of what was at its path. -/
theorem Ordered.text?_put {before after : Workspace} (hbefore : Ordered before.files)
    (hafter : Ordered after.files) {file : SourceFile}
    (hmem : ∀ other, other ∈ after.files ↔
      other = file ∨ (other ∈ before.files ∧ other.path ≠ file.path)) :
    after.text? = Function.update before.text? file.path (some file.text) := by
  funext path
  refine Option.ext fun text => ?_
  rw [hafter.text?_iff]
  by_cases hpath : path = file.path
  · subst hpath
    rw [Function.update_self]
    constructor
    · rintro ⟨other, hother, hpath, rfl⟩
      obtain rfl | ⟨-, hne⟩ := (hmem other).1 hother
      · rfl
      · exact absurd hpath hne
    · intro htext
      exact ⟨file, (hmem file).2 (.inl rfl), rfl, Option.some.inj htext⟩
  · rw [Function.update_of_ne hpath, hbefore.text?_iff]
    refine exists_congr fun other => ?_
    rw [hmem]
    constructor
    · rintro ⟨rfl | ⟨hother, -⟩, rfl, htext⟩
      · exact absurd rfl hpath
      · exact ⟨hother, rfl, htext⟩
    · rintro ⟨hother, rfl, htext⟩
      exact ⟨.inr ⟨hother, hpath⟩, rfl, htext⟩

/-- A file that is taken away. -/
theorem Ordered.text?_dropFile {workspace : Workspace} (hordered : Ordered workspace.files)
    (path : Path) :
    (workspace.dropFile path).text? = Function.update workspace.text? path none := by
  funext other
  refine Option.ext fun text => ?_
  rw [(hordered.drop path).text?_iff]
  by_cases hother : other = path
  · subst hother
    rw [Function.update_self]
    refine ⟨?_, nofun⟩
    rintro ⟨file, hfile, hpath, -⟩
    exact absurd hpath (mem_dropFile.1 hfile).2
  · rw [Function.update_of_ne hother, hordered.text?_iff]
    refine exists_congr fun file => ?_
    rw [mem_dropFile]
    constructor
    · rintro ⟨⟨hfile, -⟩, rfl, htext⟩
      exact ⟨hfile, rfl, htext⟩
    · rintro ⟨hfile, rfl, htext⟩
      exact ⟨⟨hfile, hother⟩, rfl, htext⟩

end Workspace

namespace Pass

variable {environment : Environment} {pass middle after : Pass} {path : Path} {text : String}

/-- A pass that noted some more changes, and whose texts are those that the changes lead to. -/
structure Writes (before after : Pass) (changes : List DiskChange) : Prop where
  ordered : Workspace.Ordered after.workspace.files
  disk : after.disk = before.disk ++ changes
  texts : after.workspace.text? = changes.foldl DiskChange.alter before.workspace.text?

theorem Writes.refl (hordered : Workspace.Ordered pass.workspace.files) : pass.Writes pass [] :=
  ⟨hordered, (List.append_nil _).symm, rfl⟩

theorem Writes.trans {changes more : List DiskChange} (hfirst : pass.Writes middle changes)
    (hsecond : middle.Writes after more) : pass.Writes after (changes ++ more) where
  ordered := hsecond.ordered
  disk := by rw [hsecond.disk, hfirst.disk, List.append_assoc]
  texts := by rw [hsecond.texts, hfirst.texts, List.foldl_append]

theorem disk_applyText {edits : List TextEdit}
    (happly : applyText environment pass path text edits = .ok after) :
    after.disk = pass.disk := by
  obtain ⟨parsed, -, hinstall⟩ := exists_of_bind_eq_ok happly
  obtain ⟨synced, -, hafter⟩ := exists_of_bind_eq_ok (eq_ok_of_mapError_eq_ok hinstall)
  rw [← Except.ok.inj hafter]

/-- A text that becomes the content of a path. -/
theorem text?_applyText (hordered : Workspace.Ordered pass.workspace.files)
    (hnormal : path.IsNormal) {edits : List TextEdit}
    (happly : applyText environment pass path text edits = .ok after) :
    Workspace.Ordered after.workspace.files ∧
      after.workspace.text? = Function.update pass.workspace.text? path (some text) := by
  obtain ⟨parsed, file, rfl, hinstalled⟩ := exists_installed_of_applyText happly
  obtain rfl := hinstalled.path_eq
  have hafter := hinstalled.ordered hordered hnormal
  refine ⟨hafter, ?_⟩
  rw [hordered.text?_put hafter hinstalled.mem_files, SourceFile.text, hinstalled.parsed_eq]

/-- A text that is noted to be written. -/
theorem writes_applyText (hordered : Workspace.Ordered pass.workspace.files)
    (hnormal : path.IsNormal) {edits : List TextEdit}
    (happly : applyText environment pass path text edits = .ok after) :
    pass.Writes (after.writeBack (.write path text)) [.write path text] where
  ordered := (text?_applyText hordered hnormal happly).1
  disk := congrArg (· ++ [DiskChange.write path text]) (disk_applyText happly)
  texts := (text?_applyText hordered hnormal happly).2

/-- A file that is noted to be removed was there. -/
theorem writes_remove (hordered : Workspace.Ordered pass.workspace.files)
    (hremove : pass.remove path = .ok after) :
    pass.workspace.text? path ≠ none ∧
      pass.Writes (after.writeBack (.remove path)) [.remove path] := by
  obtain ⟨file, graph, hfile, -, rfl⟩ := remove_cases hremove
  have hpath := (Workspace.file?_mem hfile).2
  refine ⟨by rw [Workspace.text?, hfile]; exact Option.some_ne_none _, hordered.drop _, rfl, ?_⟩
  exact hpath ▸ hordered.text?_dropFile file.path

/-- Importers that are spelled anew are written. -/
theorem exists_writes_respellAll {entries : List (Path × List Replacement)}
    (hordered : Workspace.Ordered pass.workspace.files)
    (hloop : entries.foldlM (respell environment) pass = .ok after) :
    ∃ changes, pass.Writes after changes ∧
      ∀ change ∈ changes, change.content? ≠ none ∧ change.path ∈ entries.map Prod.fst := by
  induction entries generalizing pass with
  | nil => exact ⟨[], Except.ok.inj hloop ▸ .refl hordered, by rintro _ ⟨⟩⟩
  | cons entry entries ih =>
    rw [List.foldlM_cons] at hloop
    obtain ⟨middle, hrespell, hrest⟩ := exists_of_bind_eq_ok hloop
    have hfirst : ∃ changes, pass.Writes middle changes ∧
        ∀ change ∈ changes, change.content? ≠ none ∧ change.path = entry.1 := by
      obtain rfl | ⟨file, applied, hfile, happly, rfl⟩ := respell_cases hrespell
      · exact ⟨[], .refl hordered, by rintro _ ⟨⟩⟩
      · obtain ⟨hmem, hpath⟩ := Workspace.file?_mem hfile
        refine ⟨_, writes_applyText hordered (hpath ▸ hordered.normal file hmem) happly,
          fun change hchange => ?_⟩
        rw [List.mem_singleton.1 hchange]
        exact ⟨Option.some_ne_none _, rfl⟩
    obtain ⟨changes, hwrites, hchanges⟩ := hfirst
    obtain ⟨more, hmore, hmoreChanges⟩ := ih hwrites.ordered hrest
    refine ⟨changes ++ more, hwrites.trans hmore, fun change hchange => ?_⟩
    rw [List.map_cons, List.mem_cons]
    obtain hchange | hchange := List.mem_append.1 hchange
    · exact (hchanges change hchange).imp_right .inl
    · exact (hmoreChanges change hchange).imp_right .inr

/-- A text that is taken to another path. -/
theorem text?_relocate (hordered : Workspace.Ordered pass.workspace.files) {file : SourceFile}
    {target : Path} (hnormal : target.IsNormal)
    (hrelocate : pass.relocate file target = .ok after) :
    Workspace.Ordered after.workspace.files ∧ after.disk = pass.disk ∧
      after.workspace.text? = Function.update (Function.update pass.workspace.text? file.path none)
        target (some file.text) := by
  obtain ⟨graph, -, hafter⟩ := exists_of_bind_eq_ok hrelocate
  obtain rfl := Except.ok.inj hafter
  have hdropped := hordered.drop file.path
  refine ⟨hdropped.put hnormal, rfl, ?_⟩
  rw [← hordered.text?_dropFile]
  exact hdropped.text?_put (hdropped.put hnormal) fun other => Workspace.mem_putFile

/-- A file that moves is removed and written, and then its importers are. -/
theorem exists_writes_rename {source target : Path}
    (hordered : Workspace.Ordered pass.workspace.files) (hnormal : target.IsNormal)
    (hrename : pass.rename environment source target = .ok after) :
    ∃ text changes, pass.workspace.text? source ≠ none ∧
      pass.Writes after (.remove source :: .write target text :: changes) ∧
      ∀ change ∈ changes, change.content? ≠ none ∧ change.path ≠ source ∧
        pass.workspace.text? change.path ≠ none := by
  obtain ⟨file, moved, applied, hfile, hrelocate, happly, hloop⟩ := rename_cases hrename
  obtain rfl := (Workspace.file?_mem hfile).2
  obtain ⟨horderedMoved, hdiskMoved, htextsMoved⟩ := text?_relocate hordered hnormal hrelocate
  obtain ⟨horderedApplied, htextsApplied⟩ := text?_applyText horderedMoved hnormal happly
  rw [htextsMoved, Function.update_idem] at htextsApplied
  obtain ⟨changes, hwrites, hchanges⟩ :=
    (fun hordered => exists_writes_respellAll hordered hloop) horderedApplied
  have hheld : pass.workspace.text? file.path ≠ none := by
    rw [Workspace.text?, hfile]
    exact Option.some_ne_none _
  refine ⟨file.text, changes, hheld, ⟨hwrites.ordered, ?_, ?_⟩, fun change hchange => ?_⟩
  · rw [hwrites.disk, ← hdiskMoved, ← disk_applyText happly]
    simp [noteMove, writeBack, noteChanged]
  · rw [hwrites.texts]
    exact congrArg (changes.foldl DiskChange.alter) htextsApplied
  · obtain ⟨hwrite, hpath⟩ := hchanges change hchange
    obtain ⟨entry, hentry, hpath⟩ := List.mem_map.1 hpath
    obtain ⟨importer, himporter, hother, -⟩ := Workspace.mem_affectedImporters.1 hentry
    rw [← hpath]
    refine ⟨hwrite, (Workspace.mem_importersOf.1 himporter).2, ?_⟩
    rw [Workspace.text?, hother]
    exact Option.some_ne_none _

end Pass

end CodeGraph
