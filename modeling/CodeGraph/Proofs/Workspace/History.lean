import CodeGraph.Proofs.Text
import CodeGraph.Proofs.Workspace.Converge
import CodeGraph.Proofs.Workspace.Move

/-!
# What the record of a file tells about its text

A file keeps its latest edits, each with the number of the commit that made it, and the number up to
which edits may have been forgotten. A commit either gives the record a new beginning or goes on with
it; in the second case the bytes before every edit that it recorded are the ones from before.
-/

namespace CodeGraph

/-! ### Bytes before an edit -/

namespace Replacement

/-- Replacements leave the bytes before all the edits that they list. -/
theorem take_bytes_applyAll {text : String} {replacements : List Replacement} {bound : Nat}
    (hbound : ∀ edit ∈ (applyAll text replacements).2, bound ≤ edit.start) :
    (Text.bytes (applyAll text replacements).1).take bound = (Text.bytes text).take bound := by
  have hkept : ∀ state : String × List TextEdit, ∀ replacement,
      ((∀ edit ∈ state.2, bound ≤ edit.start) →
        (Text.bytes state.1).take bound = (Text.bytes text).take bound) →
      (∀ edit ∈ (apply state replacement).2, bound ≤ edit.start) →
        (Text.bytes (apply state replacement).1).take bound = (Text.bytes text).take bound := by
    intro state replacement hstate hedits
    simp only [apply] at hedits ⊢
    split at hedits
    · exact hstate hedits
    · rename_i now hsplice
      have hhere : bound ≤ replacement.range.start :=
        hedits (TextEdit.replace replacement.range (Text.size replacement.text)) (by simp)
      exact (Text.take_bytes_of_splice? hsplice hhere).trans
        (hstate fun edit hedit => hedits edit (List.mem_append_left _ hedit))
  exact List.foldlRecOn (motive := fun state : String × List TextEdit =>
    (∀ edit ∈ state.2, bound ≤ edit.start) →
      (Text.bytes state.1).take bound = (Text.bytes text).take bound) replacements.reverse apply
    (fun _ => rfl) (fun state hstate replacement _ => hkept state replacement hstate) hbound

end Replacement

/-! ### Records -/

namespace SourceFile

/-- A record that went on with some edits: of the old ones and the new ones none is gone that came
after the commit up to which edits may be forgotten. -/
structure Extends (old : SourceFile) (applied : List AppliedEdit) (new : SourceFile) : Prop where
  created : new.created = old.created
  floor : old.historyFloor ≤ new.historyFloor
  kept : ∀ edit ∈ old.history ++ applied, new.historyFloor < edit.sequence → edit ∈ new.history

/-- A maximum taken over a list is at least where it began and at least every entry. -/
theorem le_foldl_max (numbers : List Nat) (start : Nat) :
    start ≤ numbers.foldl max start ∧ ∀ number ∈ numbers, number ≤ numbers.foldl max start := by
  induction numbers generalizing start with
  | nil => simp
  | cons number numbers ih =>
    obtain ⟨hstart, hrest⟩ := ih (max start number)
    rw [List.foldl_cons]
    refine ⟨by omega, fun other hother => ?_⟩
    obtain rfl | hother := List.mem_cons.1 hother
    · omega
    · exact hrest other hother

theorem extends_remember (keep : Nat) (file : SourceFile) (applied : AppliedEdit) :
    file.Extends [applied] (file.remember keep applied) where
  created := rfl
  floor := (le_foldl_max _ _).1
  kept edit hedit hfloor := by
    rw [remember, forget] at hfloor ⊢
    dsimp only at hfloor ⊢
    generalize (file.history ++ [applied]).length - max keep 1 = surplus at hfloor ⊢
    rw [← List.take_append_drop surplus (file.history ++ [applied])] at hedit
    refine (List.mem_append.1 hedit).resolve_left fun hdropped => ?_
    exact absurd ((le_foldl_max _ _).2 _ (List.mem_map_of_mem hdropped)) (Nat.not_le.2 hfloor)

theorem Extends.trans {old middle new : SourceFile} {first second : List AppliedEdit}
    (hfirst : old.Extends first middle) (hsecond : middle.Extends second new) :
    old.Extends (first ++ second) new where
  created := hsecond.created.trans hfirst.created
  floor := hfirst.floor.trans hsecond.floor
  kept edit hedit hfloor := by
    rw [← List.append_assoc, List.mem_append] at hedit
    refine hsecond.kept edit (List.mem_append.2 ?_) hfloor
    exact hedit.imp_left fun h => hfirst.kept edit h (hsecond.floor.trans_lt hfloor)

/-- Any number of edits is remembered one by one. -/
theorem extends_foldl_remember (keep : Nat) (applied : List AppliedEdit) (file : SourceFile) :
    file.Extends applied (applied.foldl (remember keep) file) := by
  induction applied generalizing file with
  | nil => exact ⟨rfl, le_rfl, fun edit hedit _ => by simpa using hedit⟩
  | cons edit applied ih => exact (extends_remember keep file edit).trans (ih _)

/-- How a commit goes on with the record of a file. The bytes before all edits of the commit are the
ones from before, as long as these edits are still remembered. -/
structure Continues (number : Nat) (old new : SourceFile) : Prop where
  path : new.path = old.path
  created : new.created = old.created
  floor : old.historyFloor ≤ new.historyFloor
  kept : ∀ applied ∈ old.history, new.historyFloor < applied.sequence → applied ∈ new.history
  unchanged : new.historyFloor < number → ∀ bound,
    (∀ applied ∈ new.history, applied.sequence = number → bound ≤ applied.edit.start) →
    (Text.bytes new.text).take bound = (Text.bytes old.text).take bound

theorem Continues.refl (number : Nat) (file : SourceFile) : file.Continues number file :=
  ⟨rfl, rfl, le_rfl, fun _ h _ => h, fun _ _ _ => rfl⟩

theorem Continues.trans {number : Nat} {old middle new : SourceFile}
    (hfirst : Continues number old middle) (hsecond : Continues number middle new) :
    Continues number old new where
  path := hsecond.path.trans hfirst.path
  created := hsecond.created.trans hfirst.created
  floor := hfirst.floor.trans hsecond.floor
  kept applied happlied hfloor :=
    hsecond.kept applied (hfirst.kept applied happlied (hsecond.floor.trans_lt hfloor)) hfloor
  unchanged hfloor bound hbound :=
    (hsecond.unchanged hfloor bound hbound).trans <|
      hfirst.unchanged (hsecond.floor.trans_lt hfloor) bound fun applied happlied hsequence =>
        hbound applied (hsecond.kept applied happlied (hsequence ▸ hfloor)) hsequence

end SourceFile

namespace Workspace

/-- How a commit goes on with the records of a workspace: each file begins with the commit or goes on
from the file that was at its path. -/
def Continues (number : Nat) (before after : Workspace) : Prop :=
  ∀ file ∈ after.files, file.created = number ∨
    ∃ old ∈ before.files, SourceFile.Continues number old file

theorem Continues.of_subset {number : Nat} {before after : Workspace}
    (hsubset : after.files ⊆ before.files) : before.Continues number after :=
  fun file hfile => .inr ⟨file, hsubset hfile, .refl number file⟩

theorem Continues.refl (number : Nat) (workspace : Workspace) :
    workspace.Continues number workspace :=
  .of_subset fun _ h => h

theorem Continues.trans {number : Nat} {first second third : Workspace}
    (hfirst : first.Continues number second) (hsecond : second.Continues number third) :
    first.Continues number third := by
  intro file hfile
  obtain hcreated | ⟨middle, hmiddle, hlater⟩ := hsecond file hfile
  · exact .inl hcreated
  · obtain hcreated | ⟨old, hold, hearlier⟩ := hfirst middle hmiddle
    · exact .inl (hlater.created.trans hcreated)
    · exact .inr ⟨old, hold, hearlier.trans hlater⟩

end Workspace

/-! ### Steps of a pass -/

namespace Pass

/-- What a text made the content of a path does to the files: one takes the place of the file before,
with its nodes and its record, or is new. -/
structure Installed (environment : Environment) (before : Pass) (path : Path) (parsed : Parsed)
    (edits : List TextEdit) (file : SourceFile) (after : Pass) : Prop where
  path_eq : file.path = path
  parsed_eq : file.parsed = parsed
  facts_eq : file.facts = parsed.facts
  synced : syncNodes before.workspace.graph path parsed parsed.facts (before.workspace.file? path) =
    .ok (after.workspace.graph, file.node, file.symbols, file.imports)
  mem_files : ∀ other, other ∈ after.workspace.files ↔
    other = file ∨ (other ∈ before.workspace.files ∧ other.path ≠ path)
  ordered : Workspace.Ordered before.workspace.files → path.IsNormal →
    Workspace.Ordered after.workspace.files
  sequence : after.sequence = before.sequence
  bind : after.bind = PathSet.insert path before.bind
  link : after.link = PathSet.insert path before.link
  created : before.workspace.file? path = none → file.created = before.sequence
  recorded : ∀ old, before.workspace.file? path = some old →
    old.Extends (edits.map (AppliedEdit.mk before.sequence)) file

section Installed

variable {environment : Environment} {pass after : Pass} {path : Path}

theorem withdrawAt_graph (workspace : Workspace) (path : Path) :
    (withdrawAt workspace path).graph = workspace.graph := by
  rw [withdrawAt]
  split <;> rfl

theorem mem_files_withdrawAt {workspace : Workspace} {path : Path} {other : SourceFile} :
    other ∈ (withdrawAt workspace path).files ↔ other ∈ workspace.files ∧ other.path ≠ path := by
  rw [withdrawAt]
  split
  · rename_i file hfile
    exact (Workspace.file?_mem hfile).2 ▸ Workspace.mem_dropFile
  · rename_i hnone
    exact ⟨fun h => ⟨h, Workspace.file?_eq_none_iff.1 hnone other h⟩, fun h => h.1⟩

theorem ordered_withdrawAt {workspace : Workspace} (hordered : Workspace.Ordered workspace.files)
    (path : Path) : Workspace.Ordered (withdrawAt workspace path).files := by
  rw [withdrawAt]
  split
  · exact hordered.drop _
  · exact hordered

theorem exists_installed {parsed : Parsed} {edits : List TextEdit}
    (hinstall : install environment pass path parsed edits = .ok after) :
    ∃ file, Installed environment pass path parsed edits file after := by
  rw [install] at hinstall
  obtain ⟨⟨graph, node, symbols, imports⟩, hsync, hrest⟩ := exists_of_bind_eq_ok hinstall
  rw [withdrawAt_graph] at hsync
  obtain rfl := Except.ok.inj hrest
  generalize hfile : (edits.map (AppliedEdit.mk pass.sequence)).foldl
    (SourceFile.remember environment.config.editHistory) _ = file
  have hsame := hfile ▸ SourceFile.sameContent_remember _ _ _
  have hextends := hfile ▸ SourceFile.extends_foldl_remember _ _ _
  refine ⟨file, hsame.1, hsame.2.parsed, hsame.2.facts, ?_, fun other => ?_,
    fun hordered hnormal => ?_, rfl, rfl, rfl, ?_, ?_⟩
  · rw [hsame.2.node, hsame.2.symbols, hsame.2.imports]
    exact hsync
  · rw [Workspace.mem_putFile, hsame.1]
    refine or_congr_right ⟨fun h => mem_files_withdrawAt.1 h.1, fun h => ?_⟩
    exact ⟨mem_files_withdrawAt.2 h, h.2⟩
  · exact (ordered_withdrawAt hordered path).put (hsame.1 ▸ hnormal)
  · intro hnone
    rw [hextends.created, hnone]
    rfl
  · intro old hold
    simp only [hold, Option.map_some, Option.getD_some] at hextends
    exact ⟨hextends.created, hextends.floor, hextends.kept⟩

theorem exists_installed_of_applyText {text : String} {edits : List TextEdit}
    (happly : applyText environment pass path text edits = .ok after) :
    ∃ parsed file, parsed.text = text ∧
      Installed environment pass path parsed edits file after := by
  rw [applyText] at happly
  obtain ⟨parsed, hparsed, hinstall⟩ := exists_of_bind_eq_ok happly
  obtain ⟨file, hinstalled⟩ := exists_installed (eq_ok_of_mapError_eq_ok hinstall)
  refine ⟨parsed, file, ?_, hinstalled⟩
  obtain ⟨grammar, -, rfl⟩ := Parsed.exists_grammar_of_parse (eq_ok_of_mapError_eq_ok hparsed)
  rfl

/-- How a pass goes on with the records, all under the number of the commit. -/
structure Continues (before after : Pass) : Prop where
  records : before.workspace.Continues before.sequence after.workspace
  sequence : after.sequence = before.sequence

theorem Continues.refl (pass : Pass) : pass.Continues pass :=
  ⟨.refl _ _, rfl⟩

theorem Continues.trans {first second third : Pass} (hfirst : first.Continues second)
    (hsecond : second.Continues third) : first.Continues third :=
  ⟨hfirst.records.trans (hfirst.sequence ▸ hsecond.records),
    hsecond.sequence.trans hfirst.sequence⟩

/-- A text that differs from the one before only behind where its edits begin. -/
theorem continues_applyText {text : String} {edits : List TextEdit}
    (hunchanged : ∀ old, pass.workspace.file? path = some old → ∀ bound,
      (∀ edit ∈ edits, bound ≤ edit.start) →
      (Text.bytes text).take bound = (Text.bytes old.text).take bound)
    (happly : applyText environment pass path text edits = .ok after) : pass.Continues after := by
  obtain ⟨parsed, put, rfl, hinstalled⟩ := exists_installed_of_applyText happly
  refine ⟨fun file hfile => ?_, hinstalled.sequence⟩
  obtain rfl | ⟨hfile, -⟩ := (hinstalled.mem_files file).1 hfile
  · cases hprevious : pass.workspace.file? path with
    | none => exact .inl (hinstalled.created hprevious)
    | some old =>
      obtain ⟨hmem, hpath⟩ := Workspace.file?_mem hprevious
      have hrecorded := hinstalled.recorded old hprevious
      refine .inr ⟨old, hmem, hinstalled.path_eq.trans hpath.symm, hrecorded.created,
        hrecorded.floor, fun applied h => hrecorded.kept applied (List.mem_append_left _ h),
        fun hfloor bound hbound => ?_⟩
      rw [SourceFile.text, hinstalled.parsed_eq]
      refine hunchanged old hprevious bound fun edit hedit => ?_
      exact hbound ⟨pass.sequence, edit⟩ (hrecorded.kept _
        (List.mem_append_right _ (List.mem_map_of_mem hedit)) hfloor) rfl
  · exact .inr ⟨file, hfile, .refl _ file⟩

theorem continues_remove (hremove : pass.remove path = .ok after) : pass.Continues after := by
  obtain ⟨file, graph, -, -, rfl⟩ := remove_cases hremove
  exact ⟨.of_subset fun file hfile => (Workspace.mem_dropFile.1 hfile).1, rfl⟩

/-- A file that moves begins anew at its new path, with its old text. -/
theorem continues_relocate {file : SourceFile} {target : Path}
    (hrelocate : pass.relocate file target = .ok after) : pass.Continues after ∧
      ∀ moved, after.workspace.file? target = some moved → moved.text = file.text := by
  rw [relocate] at hrelocate
  obtain ⟨graph, -, hafter⟩ := exists_of_bind_eq_ok hrelocate
  obtain rfl := Except.ok.inj hafter
  refine ⟨⟨fun other hother => ?_, rfl⟩, fun moved hmoved => ?_⟩
  · obtain rfl | ⟨hother, -⟩ := Workspace.mem_putFile.1 hother
    · exact .inl rfl
    · exact .inr ⟨other, (Workspace.mem_dropFile.1 hother).1, .refl _ other⟩
  · obtain ⟨hmem, hpath⟩ := Workspace.file?_mem hmoved
    obtain rfl | ⟨-, hne⟩ := Workspace.mem_putFile.1 hmem
    · rfl
    · exact absurd hpath hne

theorem continues_respell {entry : Path × List Replacement}
    (hrespell : respell environment pass entry = .ok after) : pass.Continues after := by
  obtain rfl | ⟨file, applied, hfile, happly, rfl⟩ := respell_cases hrespell
  · exact .refl after
  · have hcontinues : pass.Continues applied :=
      continues_applyText (fun old hold bound hbound => by
        obtain rfl := Option.some.inj (hfile.symm.trans hold)
        exact Replacement.take_bytes_applyAll hbound) happly
    exact ⟨hcontinues.records, hcontinues.sequence⟩

theorem continues_rename {source target : Path}
    (hrename : pass.rename environment source target = .ok after) : pass.Continues after := by
  obtain ⟨file, moved, applied, -, hrelocate, happly, hloop⟩ := rename_cases hrename
  obtain ⟨hmoved, htext⟩ := continues_relocate hrelocate
  have happlied : moved.Continues applied :=
    continues_applyText (fun old hold bound _ => by rw [htext old hold]) happly
  have hrespelled := rel_of_foldlM_eq_ok Continues .refl .trans
    (fun entry _ state next => continues_respell) hloop
  refine hmoved.trans (Continues.trans ?_ hrespelled)
  exact ⟨happlied.records, happlied.sequence⟩

end Installed

end Pass

end CodeGraph
