import CodeGraph.Proofs.Disk.Changes
import Mathlib.Logic.Function.Basic

/-!
# Disks that mirror texts

A disk mirrors texts under a root when it holds each of them. The changes of a commit keep it up
with the texts when all of them can be made. When one fails, the disk still mirrors the old texts:
what was touched before is put back. The exception is a file that moves below its own path and gets
a name there that is too long for a disk, since the directory that was made in its place is in the
way.
-/

namespace CodeGraph

/-! ### Changes of texts -/

/-- What a file holds after a change, if it is there. -/
def DiskChange.content? : DiskChange → Option String
  | write _ text => some text
  | remove _ => none

/-- The texts after a change. -/
def DiskChange.alter (texts : Path → Option String) (change : DiskChange) : Path → Option String :=
  Function.update texts change.path change.content?

theorem DiskChange.alter_ne_none {texts : Path → Option String} {change : DiskChange} {path : Path}
    (hwrite : change.content? ≠ none) (hheld : path ≠ change.path → texts path ≠ none) :
    change.alter texts path ≠ none := by
  rw [alter]
  by_cases heq : path = change.path
  · rwa [heq, Function.update_self]
  · rw [Function.update_of_ne heq]
    exact hheld heq

namespace Disk

open CodeGraph.Path

variable {disk after : Disk} {root path : Path} {texts : Path → Option String} {gone : Path → Prop}

/-! ### Mirrors -/

/-- Under a root a disk holds all the given texts, and no file at the paths that are gone, unless
there is a text for one of them again. -/
structure Mirrors (root : Path) (texts : Path → Option String) (gone : Path → Prop) (disk : Disk) :
    Prop where
  tree : disk.IsTree
  held : ∀ path text, texts path = some text →
    path.IsNormal ∧ disk.read (root.join path.text) = .ok text.toUTF8
  cleared : ∀ path, gone path → path.IsNormal ∧
    ∀ content, disk.lookup? (place root path) = some (.file content) → texts path ≠ none

theorem Mirrors.isNormal (hmirrors : Mirrors root texts gone disk) (hpath : texts path ≠ none) :
    path.IsNormal := by
  obtain ⟨text, htext⟩ := Option.ne_none_iff_exists'.1 hpath
  exact (hmirrors.held path text htext).1

theorem Mirrors.widens (hmirrors : Mirrors root texts gone disk) (hwidens : disk.Widens after)
    (htree : after.IsTree) : Mirrors root texts gone after where
  tree := htree
  held path text htext := (hmirrors.held path text htext).imp_right hwidens.read
  cleared path hpath := (hmirrors.cleared path hpath).imp_right fun hcleared content hcontent =>
    hcleared content (hwidens.file_iff.1 hcontent)

/-- A file that is set is set among the texts. -/
theorem Mirrors.set (hmirrors : Mirrors root texts gone disk) (hnormal : path.IsNormal)
    (text : Option String)
    (hsets : Sets disk after (root.join path.text) (text.map String.toUTF8)) :
    Mirrors root (Function.update texts path text)
      (fun other => gone other ∨ text = none ∧ other = path) after where
  tree := hsets.tree
  held other now hnow := by
    by_cases hother : other = path
    · subst hother
      rw [Function.update_self] at hnow
      exact ⟨hnormal, hsets.held _ (by rw [hnow]; rfl)⟩
    · rw [Function.update_of_ne hother] at hnow
      obtain ⟨hnormal', hread⟩ := hmirrors.held other now hnow
      exact ⟨hnormal', hsets.read (fun h => hother ((place_inj hnormal' hnormal).1 h)) hread⟩
  cleared other hgone := by
    by_cases hother : other = path
    · subst hother
      refine ⟨hnormal, fun content hcontent => ?_⟩
      rw [Function.update_self]
      rintro rfl
      exact hsets.absent rfl content hcontent
    · have hgone := hgone.resolve_right fun h => hother h.2
      obtain ⟨hnormal', hcleared⟩ := hmirrors.cleared other hgone
      refine ⟨hnormal', fun content hcontent => ?_⟩
      rw [Function.update_of_ne hother]
      exact hcleared content
        ((hsets.others _ (fun h => hother ((place_inj hnormal' hnormal).1 h)) content).1 hcontent)

theorem Mirrors.mono {fewer : Path → Prop} (hmirrors : Mirrors root texts gone disk)
    (hfewer : ∀ path, fewer path → gone path) : Mirrors root texts fewer disk :=
  ⟨hmirrors.tree, hmirrors.held, fun path hpath => hmirrors.cleared path (hfewer path hpath)⟩

/-! ### Changes that are made -/

/-- One change that is made; what is removed has to be there. -/
theorem Mirrors.perform (hmirrors : Mirrors root texts gone disk) (change : DiskChange)
    (hnormal : change.path.IsNormal) (hheld : change.content? = none → texts change.path ≠ none)
    (hperform : disk.perform (root.join change.path.text) change = (after, none)) :
    Mirrors root (change.alter texts) (fun other => gone other ∨ change = .remove other) after := by
  cases change with
  | write path text =>
    have hsets := sets_writeMaking hmirrors.tree hperform
    refine (hmirrors.set hnormal (some text) hsets).mono fun other hother => ?_
    exact .inl (hother.resolve_right nofun)
  | remove path =>
    obtain ⟨text, htext⟩ := Option.ne_none_iff_exists'.1 (hheld rfl)
    obtain ⟨removed, hdiscard, hsets, -⟩ :=
      exists_discard hmirrors.tree (hmirrors.held path text htext).2
    rw [Disk.perform, show (DiskChange.remove path).path = path from rfl, hdiscard] at hperform
    obtain rfl : removed = after := (Prod.mk.inj hperform).1
    refine (hmirrors.set hnormal none hsets).mono fun other hother => ?_
    exact hother.imp_right fun h => ⟨rfl, (DiskChange.remove.inj h).symm⟩

/-- A file that is there can be written and removed. -/
theorem Mirrors.exists_perform (hmirrors : Mirrors root texts gone disk) (change : DiskChange)
    {text : String} (htext : texts change.path = some text) :
    disk.snapshot (root.join change.path.text) = .ok (some text.toUTF8) ∧
      ∃ after, disk.perform (root.join change.path.text) change = (after, none) := by
  obtain ⟨hnormal, hread⟩ := hmirrors.held _ text htext
  have hsnapshot : disk.snapshot (root.join change.path.text) = .ok (some text.toUTF8) := by
    rw [snapshot, hread]
  cases change with
  | write path content =>
    obtain ⟨after, hwrite⟩ :=
      exists_writeMaking_of_read hmirrors.tree hread content.toUTF8
    exact ⟨hsnapshot, after, hwrite⟩
  | remove path =>
    obtain ⟨after, hdiscard, -, -⟩ := exists_discard hmirrors.tree hread
    refine ⟨hsnapshot, after, ?_⟩
    rw [Disk.perform, hdiscard]

variable {changes rest : List DiskChange} {change : DiskChange}
  {saved : List (Path × Option ByteArray)}

/-- Changes that are all made are made one after the other. -/
theorem exists_of_makeChangesFrom
    (hmade : makeChangesFrom root (change :: rest) saved disk = (after, none)) :
    ∃ next saved', disk.perform (root.join change.path.text) change = (next, none) ∧
      makeChangesFrom root rest saved' next = (after, none) := by
  rw [makeChangesFrom_cons] at hmade
  split at hmade
  · cases (Prod.mk.inj hmade).2
  · split at hmade
    · cases (Prod.mk.inj hmade).2
    · rename_i next hperform
      exact ⟨next, _, hperform, hmade⟩

/-- Files that are written one after the other. -/
theorem Mirrors.makeChangesFrom (hmirrors : Mirrors root texts gone disk)
    (hwrites : ∀ change ∈ changes, change.content? ≠ none ∧ change.path.IsNormal)
    (hmade : makeChangesFrom root changes saved disk = (after, none)) :
    Mirrors root (changes.foldl DiskChange.alter texts) gone after := by
  induction changes generalizing disk texts saved with
  | nil =>
    obtain rfl : disk = after := (Prod.mk.inj hmade).1
    exact hmirrors
  | cons change rest ih =>
    obtain ⟨next, saved', hperform, hrest⟩ := exists_of_makeChangesFrom hmade
    obtain ⟨hwrite, hnormal⟩ := hwrites change List.mem_cons_self
    have hnext := hmirrors.perform change hnormal (fun h => absurd h hwrite) hperform
    exact ih (hnext.mono fun _ => .inl)
      (fun other hother => hwrites other (List.mem_cons_of_mem _ hother)) hrest

/-- Files that are there can be written one after the other. -/
theorem Mirrors.exists_makeChangesFrom (hmirrors : Mirrors root texts gone disk)
    (hwrites : ∀ change ∈ changes, change.content? ≠ none ∧ texts change.path ≠ none) :
    ∃ after, Disk.makeChangesFrom root changes saved disk = (after, none) := by
  induction changes generalizing disk texts saved with
  | nil => exact ⟨disk, rfl⟩
  | cons change rest ih =>
    obtain ⟨hwrite, hheld⟩ := hwrites change List.mem_cons_self
    obtain ⟨text, htext⟩ := Option.ne_none_iff_exists'.1 hheld
    obtain ⟨hsnapshot, next, hperform⟩ := hmirrors.exists_perform change htext
    have hnext := (hmirrors.perform change (hmirrors.isNormal hheld) (fun h => absurd h hwrite)
      hperform).mono fun _ => .inl
    have hrest : ∀ other ∈ rest, other.content? ≠ none ∧ change.alter texts other.path ≠ none :=
      fun other hother => (hwrites other (List.mem_cons_of_mem _ hother)).imp_right fun hheld' =>
        DiskChange.alter_ne_none hwrite fun _ => hheld'
    rw [makeChangesFrom_cons]
    simp only [hsnapshot, hperform]
    exact ih hnext hrest

/-! ### Changes that fail -/

/-- Whether a file that moves below its own path gets a name there that is too long for a disk. -/
def overreaches (root source target : Path) : Bool :=
  isUsable (root.join target.text) && source.components.isPrefixOf target.components &&
    target.components.any fun component => longestName < Text.size component.text

/-- The changes that a commit asks for: one file is written, removed or moved, and with a file that
is moved others that stay may be written. -/
inductive Planned (texts : Path → Option String) : List DiskChange → Prop
  | write {path : Path} {text : String} (hnormal : path.IsNormal) : Planned texts [.write path text]
  | remove {path : Path} (hheld : texts path ≠ none) : Planned texts [.remove path]
  | move {source target : Path} {text : String} {rest : List DiskChange}
    (hheld : texts source ≠ none) (hnormal : target.IsNormal)
    (hrest : ∀ change ∈ rest, change.content? ≠ none ∧ change.path ≠ source ∧
      texts change.path ≠ none) :
    Planned texts (.remove source :: .write target text :: rest)

/-- **A disk is kept up with the texts by changes that are all made.** -/
theorem Mirrors.makeChanges (hmirrors : Mirrors root texts gone disk)
    (hplanned : Planned texts changes) (hmade : disk.makeChanges root changes = (after, none)) :
    Mirrors root (changes.foldl DiskChange.alter texts)
      (fun other => gone other ∨ DiskChange.remove other ∈ changes) after := by
  cases hplanned with
  | @write path text hnormal =>
    obtain ⟨next, saved, hperform, hrest⟩ := exists_of_makeChangesFrom hmade
    obtain rfl : next = after := (Prod.mk.inj hrest).1
    exact (hmirrors.perform (.write path text) hnormal nofun hperform).mono
      fun other hother => hother.imp_right fun h => (List.mem_singleton.1 h).symm
  | @remove path hheld =>
    obtain ⟨next, saved, hperform, hrest⟩ := exists_of_makeChangesFrom hmade
    obtain rfl : next = after := (Prod.mk.inj hrest).1
    exact (hmirrors.perform (.remove path) (hmirrors.isNormal hheld) (fun _ => hheld) hperform).mono
      fun other hother => hother.imp_right fun h => (List.mem_singleton.1 h).symm
  | @move source target text rest hheld hnormal hrest =>
    obtain ⟨next, saved, hperform, hwrites⟩ := exists_of_makeChangesFrom hmade
    have hnext :=
      hmirrors.perform (.remove source) (hmirrors.isNormal hheld) (fun _ => hheld) hperform
    refine (hnext.makeChangesFrom (fun change hchange => ?_) hwrites).mono fun other hother =>
      hother.imp_right fun hremove => ?_
    · obtain rfl | hchange := List.mem_cons.1 hchange
      · exact ⟨nofun, hnormal⟩
      · obtain ⟨hwrite, -, hheld'⟩ := hrest change hchange
        exact ⟨hwrite, hmirrors.isNormal hheld'⟩
    · obtain heq | hremove := List.mem_cons.1 hremove
      · exact heq.symm
      · obtain heq | hremove := List.mem_cons.1 hremove
        · cases heq
        · exact absurd rfl (hrest _ hremove).1

/-- What is left of changes that begin with the removal of a file that is there. -/
theorem Mirrors.exists_removed (hmirrors : Mirrors root texts gone disk) {text : String}
    (htext : texts path = some text) :
    ∃ next, (∀ changes, disk.makeChanges root (.remove path :: changes) =
        Disk.makeChangesFrom root changes [(root.join path.text, some text.toUTF8)] next) ∧
      Sets disk next (root.join path.text) none ∧ next.lookup? (place root path) = none ∧
      Mirrors root (Function.update texts path none) gone next := by
  obtain ⟨hnormal, hread⟩ := hmirrors.held path text htext
  obtain ⟨hsnapshot, -⟩ := hmirrors.exists_perform (.remove path) htext
  obtain ⟨next, hdiscard, hsets, hnone⟩ := exists_discard hmirrors.tree hread
  have hperform : disk.perform (root.join path.text) (.remove path) = (next, none) := by
    rw [Disk.perform, hdiscard]
  have hheld : texts path ≠ none := by rw [htext]; exact nofun
  refine ⟨next, fun changes => ?_, hsets, hnone, ?_⟩
  · simp only [DiskChange.path] at hsnapshot
    simp only [Disk.makeChanges, makeChangesFrom_cons, DiskChange.path, hsnapshot, hperform]
  · exact (hmirrors.perform (.remove path) hnormal (fun _ => hheld) hperform).mono fun _ => .inl

/-- A file that was removed can be put back after a writing that failed, unless that made a
directory in its place. -/
theorem Mirrors.putBack {source : Path} {text : String} {made : Disk}
    (hmirrors : Mirrors root texts gone disk) (htext : texts source = some text)
    (hkeeps : disk.KeepsDirectories made)
    (hmade : Mirrors root (Function.update texts source none) gone made)
    (hplace : made.lookup? (place root source) ≠ some .directory) :
    Mirrors root texts gone (made.putBack (root.join source.text, some text.toUTF8)) := by
  obtain ⟨hnormal, hread⟩ := hmirrors.held source text htext
  have hlocate := locate_of_keepsDirectories hkeeps (read_eq_ok_iff.1 hread).1
  obtain ⟨written, hwrite⟩ :
      ∃ written, made.write (root.join source.text) text.toUTF8 = .ok written :=
    ⟨_, write_eq_ok_iff.2 ⟨hlocate, hplace, rfl⟩⟩
  have hsets := sets_write hmade.tree hwrite
  have hback := hmade.set hnormal (some text) hsets
  rw [Function.update_idem, ← htext, Function.update_eq_self] at hback
  rw [Disk.putBack]
  simp only [hwrite]
  exact hback.mono fun _ => .inl

/-- A writing that fails makes no directory in place of a file that was removed before, unless the
path lies below that file and reaches too far. -/
theorem Mirrors.not_directory {source target : Path} {next made : Disk} {before : Option ByteArray}
    {content : ByteArray} {error : DiskError} (hmirrors : Mirrors root texts gone disk)
    (hheld : texts source ≠ none) (hnormal : target.IsNormal)
    (hreach : overreaches root source target = false)
    (hsets : Sets disk next (root.join source.text) none)
    (hnone : next.lookup? (place root source) = none)
    (hsnapshot : next.snapshot (root.join target.text) = .ok before)
    (hwrite : next.writeMaking (root.join target.text) content = (made, some error)) :
    made.lookup? (place root source) ≠ some .directory := by
  intro hdirectory
  obtain ⟨text, htext⟩ := Option.ne_none_iff_exists'.1 hheld
  obtain ⟨hsource, hread⟩ := hmirrors.held source text htext
  obtain ⟨sources, hsources, hallSource, rfl⟩ := hsource
  obtain ⟨above, name, rfl⟩ := (List.eq_nil_or_concat' sources).resolve_left hsources
  obtain ⟨targets, htargets, hallTarget, rfl⟩ := hnormal
  obtain ⟨row, last, rfl⟩ := (List.eq_nil_or_concat' targets).resolve_left htargets
  have hreaches := (reaches_of_read hallSource hread).1.keeps hsets.keeps
  -- what was made in place of the source lies along the path of the target
  have hplace := place_ofNames root hallSource
  obtain ⟨opened, hopens, -, ⟨hnever, -⟩ | ⟨-, rfl, -⟩⟩ :=
    exists_made hsets.tree hallTarget hwrite
  · cases hnever
  obtain ⟨first, ⟨below, rfl⟩, hfirst⟩ :=
    hopens.exists_begins hreaches hnone (ne_none_of_directory hdirectory)
  rw [hplace] at hfirst hnone
  obtain rfl := List.append_cancel_left hfirst
  have husable := isUsable_of_snapshot hsnapshot
  have hrow : above ++ [name] ++ below = above ++ name :: below := by simp
  rw [hrow] at hallTarget husable hwrite hreach
  have hshort : ∀ part ∈ name :: below ++ [last], Text.size part ≤ longestName := by
    intro part hpart
    have hbegins : (above ++ [name]).map Component.named <+:
        (above ++ name :: below ++ [last]).map Component.named :=
      ⟨(below ++ [last]).map Component.named, by simp⟩
    rw [overreaches, husable, components_ofNames hallSource, components_ofNames hallTarget,
      List.isPrefixOf_iff_prefix.2 hbegins, Bool.true_and, Bool.true_and,
      List.any_eq_false] at hreach
    have hmem : part ∈ above ++ name :: below ++ [last] := by
      rw [List.append_assoc]
      exact List.mem_append_right _ hpart
    have hname := hreach (.named part) (List.mem_map_of_mem hmem)
    exact Nat.le_of_not_lt (of_decide_eq_false (Bool.eq_false_iff.2 hname))
  rw [← List.append_assoc] at hnone
  obtain ⟨after, hwritten⟩ := exists_writeMaking_fresh hsets.tree hallTarget hreaches hnone hshort
    husable content
  cases (Prod.mk.inj (hwrite.symm.trans hwritten)).2

/-- **A disk still mirrors the texts when a change of a commit fails**, since all that was touched
is put back. -/
theorem Mirrors.makeChanges_failed (hmirrors : Mirrors root texts gone disk)
    (hplanned : Planned texts changes)
    (hreach : ∀ source target text rest, changes = .remove source :: .write target text :: rest →
      overreaches root source target = false) {error : DiskError}
    (hfailed : disk.makeChanges root changes = (after, some error)) :
    Mirrors root texts gone after := by
  cases hplanned with
  | @write path text hnormal =>
    rw [Disk.makeChanges, makeChangesFrom_cons] at hfailed
    split at hfailed
    · obtain rfl : disk = after := (Prod.mk.inj hfailed).1
      exact hmirrors
    · rename_i before hsnapshot
      split at hfailed
      · rename_i made error hperform
        obtain ⟨hwidens, htree, hback⟩ := widens_writeMaking hmirrors.tree hperform
        obtain rfl := (Prod.mk.inj hfailed).1
        rw [List.foldl_cons, List.foldl_nil]
        exact (hback before).symm ▸ hmirrors.widens hwidens htree
      · cases (Prod.mk.inj hfailed).2
  | @remove path hheld =>
    obtain ⟨text, htext⟩ := Option.ne_none_iff_exists'.1 hheld
    obtain ⟨hsnapshot, next, hperform⟩ := hmirrors.exists_perform (.remove path) htext
    rw [Disk.makeChanges, makeChangesFrom_cons] at hfailed
    simp only [hsnapshot, hperform] at hfailed
    cases (Prod.mk.inj hfailed).2
  | @move source target content rest hheld hnormal hrest =>
    obtain ⟨text, htext⟩ := Option.ne_none_iff_exists'.1 hheld
    obtain ⟨next, hstart, hsets, hnone, hremoved⟩ := hmirrors.exists_removed htext
    have hback : ∀ {made : Disk}, next.Widens made → made.IsTree →
        made.lookup? (place root source) ≠ some .directory →
          Mirrors root texts gone (made.putBack (root.join source.text, some text.toUTF8)) :=
      fun hwidens htree => hmirrors.putBack htext (hsets.keeps.trans hwidens.keepsDirectories)
        (hremoved.widens hwidens htree)
    rw [hstart, makeChangesFrom_cons] at hfailed
    split at hfailed
    · obtain rfl := (Prod.mk.inj hfailed).1
      exact hback (.refl next) hremoved.tree (ne_directory_of_none hnone)
    · rename_i before hbefore
      split at hfailed
      · rename_i made error hwrite
        obtain ⟨hwidens, htree, hself⟩ := widens_writeMaking hremoved.tree hwrite
        obtain rfl := (Prod.mk.inj hfailed).1
        simp only [List.foldl_cons, List.foldl_nil]
        rw [show made.putBack (root.join (DiskChange.write target content).path.text, before) = made
          from hself before]
        exact hback hwidens htree (hmirrors.not_directory hheld hnormal (hreach _ _ _ _ rfl) hsets
          hnone hbefore hwrite)
      · rename_i made hwrite
        exfalso
        have hwritten := (hremoved.perform (.write target content) hnormal nofun hwrite).mono
          fun _ => .inl
        obtain ⟨last, hlast⟩ := hwritten.exists_makeChangesFrom fun change hchange => by
          obtain ⟨hwrite, hne, hheld'⟩ := hrest change hchange
          refine ⟨hwrite, DiskChange.alter_ne_none nofun fun _ => ?_⟩
          rwa [Function.update_of_ne hne]
        cases (Prod.mk.inj (hfailed.symm.trans hlast)).2

/-! ### Files that are lost -/

theorem overreaches_below {names : List String} {name : String}
    (hall : ∀ part ∈ names ++ [name], IsName part)
    (husable : isUsable (root.join (ofNames (names ++ [name])).text) = true)
    (hlong : longestName < Text.size name) :
    overreaches root (ofNames names) (ofNames (names ++ [name])) = true := by
  have hinner : ∀ part ∈ names, IsName part := fun part hpart =>
    hall part (List.mem_append_left _ hpart)
  rw [overreaches, husable, components_ofNames hall, components_ofNames hinner,
    List.map_append, List.isPrefixOf_iff_prefix.2 (List.prefix_append _ _), Bool.true_and,
    Bool.true_and, List.any_eq_true]
  exact ⟨.named name, by simp, decide_eq_true hlong⟩

/-- What it takes to reach too far: the file moves below its own path, and a name on the way from
there is too long. -/
theorem exists_of_overreaches {above row : List String} {name last : String}
    (hallSource : ∀ part ∈ above ++ [name], IsName part)
    (hallTarget : ∀ part ∈ row ++ [last], IsName part)
    (hshort : ∀ part ∈ above ++ [name], Text.size part ≤ longestName)
    (hreach : overreaches root (ofNames (above ++ [name])) (ofNames (row ++ [last])) = true) :
    isUsable (root.join (ofNames (row ++ [last])).text) ∧
      (∃ below, row = above ++ name :: below) ∧
      ∃ part ∈ row ++ [last], longestName < Text.size part := by
  rw [overreaches, components_ofNames hallSource, components_ofNames hallTarget, Bool.and_eq_true,
    Bool.and_eq_true, List.isPrefixOf_iff_prefix, List.any_eq_true] at hreach
  obtain ⟨⟨husable, hbegins⟩, component, hcomponent, hlong⟩ := hreach
  obtain ⟨part, hpart, rfl⟩ := List.mem_map.1 hcomponent
  have hlong : longestName < Text.size part := of_decide_eq_true hlong
  obtain ⟨first, ⟨more, hmore⟩, hfirst⟩ := List.prefix_map_iff.1 hbegins
  have hfirst := congrArg (List.map Component.text) hfirst
  rw [text_named, text_named] at hfirst
  subst hfirst
  refine ⟨husable, ?_, part, hpart, hlong⟩
  obtain rfl | ⟨below, final, rfl⟩ := more.eq_nil_or_concat'
  · rw [List.append_nil] at hmore
    exact absurd (hshort part (hmore ▸ hpart)) (Nat.not_le_of_lt hlong)
  · rw [← List.append_assoc] at hmore
    obtain ⟨hrow, -⟩ := List.append_inj' hmore rfl
    exact ⟨below, by simp [← hrow]⟩

/-- Nothing is found below a place where nothing is. -/
theorem snapshot_below {above below : List String} {name last : String}
    (hall : ∀ part ∈ above ++ name :: below ++ [last], IsName part)
    (hreaches : disk.Reaches root above) (hname : Text.size name ≤ longestName)
    (hnone : disk.lookup? (goal [] root.components ++ above ++ [name]) = none)
    (husable : isUsable (root.join (ofNames (above ++ name :: below ++ [last])).text)) :
    disk.snapshot (root.join (ofNames (above ++ name :: below ++ [last])).text) = .ok none := by
  have hwalk : ((root.components ++ above.map Component.named) ++ [Component.named name]).foldlM
      disk.step [] = .ok (goal [] root.components ++ above ++ [name]) := by
    rw [List.foldlM_append, hreaches.walk, ok_bind, List.foldlM_cons,
      step_eq_ok_iff.2 ⟨hreaches.directory, fun _ h => by cases h; exact hname, rfl⟩]
    rfl
  obtain ⟨head, others, hothers⟩ : ∃ head others, below ++ [last] = head :: others :=
    List.exists_cons_of_ne_nil (by simp)
  have hcomponents : root.components ++ (above ++ name :: below ++ [last]).map Component.named =
      ((root.components ++ above.map Component.named) ++ [Component.named name]) ++
        .named head :: others.map Component.named := by
    rw [List.append_assoc, List.cons_append, hothers]
    simp
  have hread : disk.read (root.join (ofNames (above ++ name :: below ++ [last])).text) =
      .error .notFound := by
    rw [read, locate, if_pos husable, components_join root hall, hcomponents,
      foldlM_eq_notFound hwalk hnone]
    rfl
  rw [snapshot, hread]

/-- **A file that reaches too far when it moves is lost**: the changes fail, and a directory stays
in its place. -/
theorem Mirrors.makeChanges_overreaching {source target : Path}
    (hmirrors : Mirrors root texts gone disk) (hheld : texts source ≠ none)
    (hnormal : target.IsNormal) (hreach : overreaches root source target = true) (content : String)
    (rest : List DiskChange) :
    ∃ after error, disk.makeChanges root (.remove source :: .write target content :: rest) =
        (after, some error) ∧ after.read (root.join source.text) = .error .isDirectory := by
  obtain ⟨text, htext⟩ := Option.ne_none_iff_exists'.1 hheld
  obtain ⟨hsource, hread⟩ := hmirrors.held source text htext
  obtain ⟨next, hstart, hsets, hnone, -⟩ := hmirrors.exists_removed htext
  obtain ⟨sources, hsources, hallSource, rfl⟩ := hsource
  obtain ⟨above, name, rfl⟩ := (List.eq_nil_or_concat' sources).resolve_left hsources
  obtain ⟨targets, htargets, hallTarget, rfl⟩ := hnormal
  obtain ⟨row, last, rfl⟩ := (List.eq_nil_or_concat' targets).resolve_left htargets
  obtain ⟨hreaches, hname⟩ := reaches_of_read hallSource hread
  have hshort : ∀ part ∈ above ++ [name], Text.size part ≤ longestName := by
    intro part hpart
    obtain habove | hlast := List.mem_append.1 hpart
    · exact size_le_of_foldlM hreaches.walk (by simp [habove])
    · exact List.mem_singleton.1 hlast ▸ hname
  obtain ⟨husable, ⟨below, rfl⟩, part, hpart, hlong⟩ :=
    exists_of_overreaches hallSource hallTarget hshort hreach
  have hreaches := hreaches.keeps hsets.keeps
  have hplace := place_ofNames root hallSource
  rw [← List.append_assoc] at hplace
  rw [hplace] at hnone
  have hbefore := snapshot_below hallTarget hreaches hname hnone husable
  cases hwrite : next.writeMaking (root.join (ofNames (above ++ name :: below ++ [last])).text)
      content.toUTF8 with
  | mk made result =>
    obtain ⟨opened, hopens, hopened, ⟨-, hwritten⟩ | ⟨hfailed, rfl, -⟩⟩ :=
      exists_made hsets.tree hallTarget hwrite
    · have hwalk := (locate_eq_ok_iff.1 (write_eq_ok_iff.1 hwritten).1).2
      rw [components_join root hallTarget] at hwalk
      have hsize := size_le_of_foldlM hwalk
        (List.mem_append_right _ (List.mem_map_of_mem hpart))
      exact absurd hsize (Nat.not_le_of_lt hlong)
    · obtain ⟨error, rfl⟩ := Option.ne_none_iff_exists'.1 hfailed
      have hdirectory : made.lookup? (place root (ofNames (above ++ [name]))) = some .directory := by
        rw [hplace, hopened husable, List.map_append, ← List.append_assoc,
          makeAlong_append _ hreaches.walk hreaches.directory]
        exact directory_of_makeAlong hsets.tree hreaches.directory hname hnone _
      refine ⟨made, error, ?_, ?_⟩
      · obtain ⟨-, -, hself⟩ :=
          widens_writeMaking hsets.tree hwrite
        have hback := putBack_eq_self
          (fun _ _ hwritten => (write_eq_ok_iff.1 hwritten).2.1 hdirectory) (some text.toUTF8)
        rw [hstart, makeChangesFrom_cons]
        simp only [DiskChange.path, hbefore, Disk.perform, hwrite, List.foldl_cons, List.foldl_nil,
          hself, hback]
      · have hlocate := locate_of_keepsDirectories
          (hsets.keeps.trans hopens.widens.keepsDirectories) (read_eq_ok_iff.1 hread).1
        rw [place] at hdirectory
        rw [read, hlocate, ok_bind]
        simp only [hdirectory]
        rfl

end Disk

end CodeGraph
