import CodeGraph.Disk.Changes
import CodeGraph.Proofs.Disk.Tree

/-!
# Changes on a tree

A change that is made sets what one file holds and touches no other file. A writing that fails
leaves nothing but directories behind, and then there is nothing to put back.
-/

namespace CodeGraph.Disk

open CodeGraph.Path

variable {disk before after made : Disk} {root path : Path}

/-! ### Single operations -/

theorem read_eq_ok_iff {content : ByteArray} :
    disk.read path = .ok content ↔ disk.locate path = .ok (goal [] path.components) ∧
      disk.lookup? (goal [] path.components) = some (.file content) := by
  rw [read]
  constructor
  · intro hread
    obtain ⟨names, hlocate, hrest⟩ := exists_of_bind_eq_ok hread
    obtain rfl := eq_goal_of_locate hlocate
    split at hrest
    · cases hrest
    · cases hrest
    · rename_i found hentry
      obtain rfl := Except.ok.inj hrest
      exact ⟨hlocate, hentry⟩
  · rintro ⟨hlocate, hentry⟩
    rw [hlocate, ok_bind]
    simp only [hentry]
    rfl

theorem exists_file_of_isFile (hfile : disk.isFile path = true) :
    ∃ content, disk.lookup? (goal [] path.components) = some (.file content) := by
  rw [isFile, find?] at hfile
  cases hlocate : disk.locate path with
  | error error =>
    rw [hlocate] at hfile
    cases hfile
  | ok names =>
    obtain rfl := eq_goal_of_locate hlocate
    rw [hlocate] at hfile
    dsimp only at hfile
    split at hfile
    · rename_i content hentry
      exact ⟨content, hentry⟩
    · cases hfile

/-- A file can be written where a path leads, if that is not a directory. -/
theorem write_eq_ok_iff {content : ByteArray} :
    disk.write path content = .ok after ↔ disk.locate path = .ok (goal [] path.components) ∧
      disk.lookup? (goal [] path.components) ≠ some .directory ∧
      after = ⟨disk.entries.put (goal [] path.components) (.file content)⟩ := by
  rw [write]
  constructor
  · intro hwrite
    obtain ⟨names, hlocate, hrest⟩ := exists_of_bind_eq_ok hwrite
    obtain rfl := eq_goal_of_locate hlocate
    split at hrest
    · cases hrest
    · rename_i hentry
      exact ⟨hlocate, hentry, (Except.ok.inj hrest).symm⟩
  · rintro ⟨hlocate, hentry, rfl⟩
    rw [hlocate, ok_bind]
    split
    · rename_i hdirectory
      exact absurd hdirectory hentry
    · rfl

/-- A file can be removed where it can be read, and otherwise fails as reading does. -/
theorem removeFile_eq_map_read (disk : Disk) (path : Path) : disk.removeFile path =
    (disk.read path).map fun _ => ⟨disk.entries.erase (goal [] path.components)⟩ := by
  rw [removeFile, read]
  cases hlocate : disk.locate path with
  | error error => rfl
  | ok names =>
    obtain rfl := eq_goal_of_locate hlocate
    rw [ok_bind, ok_bind]
    split <;> rfl

/-- Whether a file can be written does not depend on what is written. -/
theorem write_ne_ok {content : ByteArray} {error : DiskError}
    (hwrite : disk.write path content = .error error) (other : ByteArray) (after : Disk) :
    disk.write path other ≠ .ok after := by
  intro hother
  obtain ⟨hlocate, hentry, -⟩ := write_eq_ok_iff.1 hother
  cases hwrite.symm.trans (write_eq_ok_iff.2 ⟨hlocate, hentry, rfl⟩)

/-- Where no file can be read there is none to remove. -/
theorem putBack_none_eq_self (hread : ∀ content, disk.read path ≠ .ok content) :
    disk.putBack (path, none) = disk := by
  rw [putBack]
  simp only [discard, removeFile_eq_map_read]
  cases hfound : disk.read path with
  | ok content => exact absurd hfound (hread content)
  | error error => cases error <;> rfl

/-- Where no file can be written there is none to put back or to remove. -/
theorem putBack_eq_self (hwrite : ∀ content after, disk.write path content ≠ .ok after)
    (saved : Option ByteArray) : disk.putBack (path, saved) = disk := by
  cases saved with
  | some content =>
    rw [putBack]
    cases hagain : disk.write path content with
    | error error => simp only [hagain]; rfl
    | ok after => exact absurd hagain (hwrite content after)
  | none =>
    apply putBack_none_eq_self
    intro content hread
    obtain ⟨hlocate, hentry⟩ := read_eq_ok_iff.1 hread
    exact hwrite content _ (write_eq_ok_iff.2 ⟨hlocate, ne_directory_of_file hentry, rfl⟩)

/-- What setting one file comes to: no other file is touched, and no directory is lost. -/
structure Sets (before after : Disk) (path : Path) (content : Option ByteArray) : Prop where
  keeps : before.KeepsDirectories after
  tree : after.IsTree
  held : ∀ held, content = some held → after.read path = .ok held
  absent : content = none → ∀ held, after.lookup? (goal [] path.components) ≠ some (.file held)
  others : ∀ names, names ≠ goal [] path.components → ∀ held,
    after.lookup? names = some (.file held) ↔ before.lookup? names = some (.file held)

/-- Another file that could be read still can. -/
theorem Sets.read {content : Option ByteArray} (hsets : Sets before after path content)
    {other : Path} (hother : goal [] other.components ≠ goal [] path.components)
    {held : ByteArray} (hread : before.read other = .ok held) : after.read other = .ok held := by
  obtain ⟨hlocate, hentry⟩ := read_eq_ok_iff.1 hread
  exact read_eq_ok_iff.2
    ⟨locate_of_keepsDirectories hsets.keeps hlocate, (hsets.others _ hother held).2 hentry⟩

theorem Widens.read (hwidens : before.Widens after) {content : ByteArray}
    (hread : before.read path = .ok content) : after.read path = .ok content := by
  obtain ⟨hlocate, hentry⟩ := read_eq_ok_iff.1 hread
  exact read_eq_ok_iff.2
    ⟨locate_of_keepsDirectories hwidens.keepsDirectories hlocate, hwidens.file_iff.2 hentry⟩

theorem keepsDirectories_put {names : List String} (hnames : disk.lookup? names ≠ some .directory)
    (entry : DiskEntry) : disk.KeepsDirectories ⟨disk.entries.put names entry⟩ := by
  intro other hother
  rw [lookup?_put disk (ne_nil_of_ne_directory hnames), if_neg]
  · exact hother
  · rintro rfl
    exact hnames hother

/-- A file that is read can be removed. -/
theorem exists_discard (htree : disk.IsTree) {content : ByteArray}
    (hread : disk.read path = .ok content) :
    ∃ after, disk.discard path = .ok after ∧ Sets disk after path none ∧
      after.lookup? (goal [] path.components) = none := by
  obtain ⟨hlocate, hentry⟩ := read_eq_ok_iff.1 hread
  have hplace := ne_directory_of_file hentry
  have herase := lookup?_erase disk (ne_nil_of_ne_directory hplace)
  have hremove : disk.removeFile path = .ok ⟨disk.entries.erase (goal [] path.components)⟩ := by
    rw [removeFile_eq_map_read, hread]
    rfl
  refine ⟨_, by rw [discard, hremove], ⟨fun names hnames => ?_, htree.erase hplace, nofun,
    fun _ held => ?_, fun names hne held => ?_⟩, by rw [herase, if_pos rfl]⟩
  · rw [herase, if_neg]
    · exact hnames
    · rintro rfl
      exact hplace hnames
  · rw [herase, if_pos rfl]
    exact nofun
  · rw [herase, if_neg hne]

theorem isUsable_of_snapshot {before : Option ByteArray}
    (hbefore : disk.snapshot path = .ok before) : isUsable path := by
  by_contra hunusable
  have hread : disk.read path = .error .badName := by
    rw [read, locate, if_neg hunusable]
    rfl
  rw [snapshot, hread] at hbefore
  cases hbefore

/-! ### Writing under a root -/

/-- What a path under a root leads to. -/
def place (root path : Path) : List String :=
  goal [] (root.join path.text).components

theorem place_ofNames (root : Path) {names : List String} (hall : ∀ name ∈ names, IsName name) :
    place root (ofNames names) = goal [] root.components ++ names := by
  rw [place, components_join root hall, goal_append, goal_named]

theorem place_inj {left right : Path} (hleft : left.IsNormal) (hright : right.IsNormal) :
    place root left = place root right ↔ left = right := by
  obtain ⟨lefts, -, hlefts, rfl⟩ := hleft
  obtain ⟨rights, -, hrights, rfl⟩ := hright
  rw [place_ofNames root hlefts, place_ofNames root hrights, List.append_cancel_left_eq]
  refine ⟨congrArg ofNames, fun heq => ?_⟩
  have hcomponents := congrArg components heq
  rw [components_ofNames hlefts, components_ofNames hrights] at hcomponents
  have htexts := congrArg (List.map Component.text) hcomponents
  rwa [text_named, text_named] at htexts

/-- A file is written, or the disk stays and no file can be written there. -/
theorem outcome_of_write {made : Disk} {content : ByteArray} {result : Option DiskError}
    (hwrite : (match made.write path content with
      | .error error => (made, some error)
      | .ok written => (written, none)) = (after, result)) :
    result = none ∧ made.write path content = .ok after ∨
      result ≠ none ∧ after = made ∧ ∀ content written, made.write path content ≠ .ok written := by
  split at hwrite
  · rename_i error herror
    obtain ⟨rfl, rfl⟩ := Prod.mk.inj hwrite
    exact .inr ⟨nofun, rfl, write_ne_ok herror⟩
  · rename_i written hwritten
    obtain ⟨rfl, rfl⟩ := Prod.mk.inj hwrite
    exact .inl ⟨rfl, hwritten⟩

/-- Writing in a directory that is made for it: if the writing fails, it can only have made
directories, and no file can be written there then either. -/
theorem exists_making (htree : disk.IsTree) {content : ByteArray} {result : Option DiskError}
    (hwrite : disk.writeMaking path content = (after, result)) :
    ∃ made, Opens disk made [] path.components.dropLast ∧
      (isUsable path → made = (disk.makeAlong [] path.components.dropLast).1) ∧
      (result = none ∧ made.write path content = .ok after ∨
        result ≠ none ∧ after = made ∧ ∀ content written, made.write path content ≠ .ok written) := by
  rw [writeMaking] at hwrite
  cases hparent : path.parent? with
  | none =>
    rw [hparent] at hwrite
    rw [dropLast_of_parent?_eq_none hparent]
    exact ⟨disk, .refl htree [] [], fun _ => rfl, outcome_of_write hwrite⟩
  | some directory =>
    obtain ⟨last, hlast, hcomponents, hsublist⟩ := exists_of_parent? hparent
    have hwalks : ∀ {made : Disk} {content : ByteArray} {written : Disk},
        made.write path content = .ok written → isUsable directory ∧
          (path.components.dropLast ++ [last]).foldlM made.step [] =
            .ok (goal [] path.components) := by
      intro made content written hwritten
      obtain ⟨husable, hwalk⟩ := locate_eq_ok_iff.1 (write_eq_ok_iff.1 hwritten).1
      exact ⟨isUsable_of_sublist husable hsublist, hlast ▸ hwalk⟩
    have hopens := opens_makeAlong htree [] path.components.dropLast
    simp only [hparent, makeDirectories] at hwrite
    split at hwrite
    · rename_i made error hmade
      obtain ⟨rfl, rfl⟩ := Prod.mk.inj hwrite
      split at hmade
      · rw [hcomponents] at hmade
        rw [hmade] at hopens
        refine ⟨made, hopens, fun _ => by rw [hmade],
          .inr ⟨nofun, rfl, fun content written hwritten => ?_⟩⟩
        obtain ⟨hnone, -⟩ | ⟨-, hnowhere⟩ := foldlM_of_makeAlong htree hmade
        · cases hnone
        · obtain ⟨error, herror⟩ := hnowhere last
          cases herror.symm.trans (hwalks hwritten).2
      · rename_i hdirectory
        obtain ⟨rfl, -⟩ := Prod.mk.inj hmade
        exact ⟨disk, .refl htree _ _,
          fun husable => absurd (isUsable_of_sublist husable hsublist) hdirectory,
          .inr ⟨nofun, rfl, fun content written hwritten => hdirectory (hwalks hwritten).1⟩⟩
    · rename_i made hmade
      split at hmade
      · rw [hcomponents] at hmade
        rw [hmade] at hopens
        exact ⟨made, hopens, fun _ => by rw [hmade], outcome_of_write hwrite⟩
      · cases (Prod.mk.inj hmade).2

/-- The same under a root. -/
theorem exists_made (htree : disk.IsTree) {names : List String} {last : String}
    (hall : ∀ name ∈ names ++ [last], IsName name) {content : ByteArray}
    {result : Option DiskError}
    (hwrite : disk.writeMaking (root.join (ofNames (names ++ [last])).text) content =
      (after, result)) :
    ∃ made, Opens disk made [] (root.components ++ names.map Component.named) ∧
      (isUsable (root.join (ofNames (names ++ [last])).text) →
        made = (disk.makeAlong [] (root.components ++ names.map Component.named)).1) ∧
      (result = none ∧ made.write (root.join (ofNames (names ++ [last])).text) content = .ok after ∨
        result ≠ none ∧ after = made ∧ ∀ content written,
          made.write (root.join (ofNames (names ++ [last])).text) content ≠ .ok written) := by
  have hunder := components_join root hall
  rw [List.map_append, List.map_singleton, ← List.append_assoc] at hunder
  have hmaking := exists_making htree hwrite
  rwa [hunder, List.dropLast_concat] at hmaking

/-- A place that can be written is a name in a directory. -/
theorem exists_last_of_locate (htree : disk.IsTree)
    (hlocate : disk.locate path = .ok (goal [] path.components))
    (hentry : disk.lookup? (goal [] path.components) ≠ some .directory) :
    ∃ first name, path.components = first ++ [.named name] ∧
      disk.lookup? (goal [] first) = some .directory := by
  obtain hnil | ⟨first, last, hcomponents⟩ := path.components.eq_nil_or_concat'
  · rw [hnil] at hentry
    exact absurd rfl hentry
  · have hwalk := (locate_eq_ok_iff.1 hlocate).2
    rw [hcomponents] at hwalk
    rw [hcomponents, goal_append] at hentry
    have hdirectory := (exists_foldlM_of_append hwalk).2.2 (List.cons_ne_nil _ _)
    obtain ⟨name, rfl⟩ := htree.exists_named hdirectory hentry
    exact ⟨first, name, hcomponents, hdirectory⟩

theorem sets_write (htree : disk.IsTree) {content : ByteArray}
    (hwrite : disk.write path content = .ok after) : Sets disk after path (some content) := by
  obtain ⟨hlocate, hentry, rfl⟩ := write_eq_ok_iff.1 hwrite
  obtain ⟨first, name, hcomponents, hdirectory⟩ := exists_last_of_locate htree hlocate hentry
  have hplace : goal [] path.components = goal [] first ++ [name] := by
    rw [hcomponents, goal_append]
    rfl
  have hkeeps := keepsDirectories_put hentry (.file content)
  have hput := lookup?_put disk (ne_nil_of_ne_directory hentry) (.file content)
  refine ⟨hkeeps, ?_, ?_, nofun, fun others hne held => ?_⟩
  · rw [hplace]
    exact htree.put _ hdirectory (hplace ▸ hentry)
  · rintro held ⟨rfl⟩
    exact read_eq_ok_iff.2 ⟨locate_of_keepsDirectories hkeeps hlocate, by rw [hput, if_pos rfl]⟩
  · rw [hput, if_neg hne]

/-- **A file that is written is the only one that changes.** -/
theorem sets_writeMaking (htree : disk.IsTree) {content : ByteArray}
    (hwrite : disk.writeMaking path content = (after, none)) :
    Sets disk after path (some content) := by
  obtain ⟨made, hopens, -, ⟨-, hwritten⟩ | ⟨herror, -⟩⟩ := exists_making htree hwrite
  · have hsets := sets_write hopens.tree hwritten
    exact ⟨hopens.widens.keepsDirectories.trans hsets.keeps, hsets.tree, hsets.held, hsets.absent,
      fun names hne held => (hsets.others names hne held).trans hopens.widens.file_iff⟩
  · exact absurd rfl herror

/-- A writing that fails leaves the files as they were, and nothing is put back there. -/
theorem widens_writeMaking (htree : disk.IsTree) {content : ByteArray} {error : DiskError}
    (hwrite : disk.writeMaking path content = (after, some error)) :
    disk.Widens after ∧ after.IsTree ∧ ∀ saved, after.putBack (path, saved) = after := by
  obtain ⟨made, hopens, -, ⟨hnone, -⟩ | ⟨-, rfl, hfails⟩⟩ := exists_making htree hwrite
  · cases hnone
  · exact ⟨hopens.widens, hopens.tree, putBack_eq_self hfails⟩

/-- A file that is read can be written. -/
theorem exists_writeMaking_of_read (htree : disk.IsTree) {held : ByteArray}
    (hread : disk.read path = .ok held) (content : ByteArray) :
    ∃ after, disk.writeMaking path content = (after, none) := by
  cases hwrite : disk.writeMaking path content with
  | mk after result =>
    cases result with
    | none => exact ⟨after, rfl⟩
    | some error =>
      obtain ⟨made, hopens, -, ⟨hnone, -⟩ | ⟨-, -, hfails⟩⟩ := exists_making htree hwrite
      · cases hnone
      · obtain ⟨hlocate, hentry⟩ := read_eq_ok_iff.1 (hopens.widens.read hread)
        exact absurd (write_eq_ok_iff.2 ⟨hlocate, ne_directory_of_file hentry, rfl⟩)
          (hfails content _)

/-- Where names under a root lead to a directory that can be reached. -/
structure Reaches (disk : Disk) (root : Path) (names : List String) : Prop where
  walk : (root.components ++ names.map Component.named).foldlM disk.step [] =
    .ok (goal [] root.components ++ names)
  directory : disk.lookup? (goal [] root.components ++ names) = some .directory

theorem Reaches.keeps {names : List String} (hreaches : before.Reaches root names)
    (hkeeps : before.KeepsDirectories after) : after.Reaches root names :=
  ⟨foldlM_of_keepsDirectories hkeeps hreaches.walk, hkeeps _ hreaches.directory⟩

/-- The directory of a file that is read can be reached. -/
theorem reaches_of_read {names : List String} {last : String}
    (hall : ∀ name ∈ names ++ [last], IsName name) {content : ByteArray}
    (hread : disk.read (root.join (ofNames (names ++ [last])).text) = .ok content) :
    disk.Reaches root names ∧ Text.size last ≤ longestName := by
  have hwalk := (locate_eq_ok_iff.1 (read_eq_ok_iff.1 hread).1).2
  rw [components_join root hall, List.map_append, ← List.append_assoc] at hwalk
  obtain ⟨habove, -, hdirectory⟩ := exists_foldlM_of_append hwalk
  have hdirectory := hdirectory (List.cons_ne_nil _ _)
  rw [goal_append, goal_named] at habove hdirectory
  exact ⟨⟨habove, hdirectory⟩, size_le_of_foldlM hwalk (by simp)⟩

/-- A root below which a directory can be reached is there, and so is all on the way to it. -/
theorem Reaches.directory_of_begins {names : List String} (hreaches : disk.Reaches root names)
    {first : List Component} (hbegins : first <+: root.components) :
    disk.lookup? (goal [] first) = some .directory := by
  obtain ⟨more, hmore⟩ := hbegins
  have hwalk := hreaches.walk
  have hdirectory := hreaches.directory
  rw [← goal_named, ← goal_append, ← hmore, List.append_assoc] at hdirectory
  rw [← hmore, List.append_assoc] at hwalk
  by_cases hlast : more ++ names.map Component.named = []
  · rwa [hlast, List.append_nil] at hdirectory
  · exact (exists_foldlM_of_append hwalk).2.2 hlast

/-- What is new under a root lies along the path that was opened. -/
theorem Opens.exists_begins {row above names : List String}
    (hopens : Opens disk made [] (root.components ++ row.map Component.named))
    (hreaches : disk.Reaches root above) (hbefore : disk.lookup? names = none)
    (hmade : made.lookup? names ≠ none) :
    ∃ first, first <+: row ∧ names = goal [] root.components ++ first := by
  obtain ⟨first, hbegins, rfl⟩ := hopens.new names hbefore hmade
  obtain hshort | ⟨more, rfl⟩ :=
    List.prefix_or_prefix_of_prefix hbegins (List.prefix_append root.components _)
  · cases hbefore.symm.trans (hreaches.directory_of_begins hshort)
  · obtain ⟨names, hnames, rfl⟩ :=
      List.prefix_map_iff.1 ((List.prefix_append_right_inj root.components).1 hbegins)
    exact ⟨names, hnames, by rw [goal_append, goal_named]⟩

/-- A file can be written below a place where nothing is, if the names from there on are not too
long. -/
theorem exists_writeMaking_fresh (htree : disk.IsTree) {above row : List String}
    {name last : String} (hall : ∀ part ∈ (above ++ name :: row) ++ [last], IsName part)
    (hreaches : disk.Reaches root above)
    (hnone : disk.lookup? (goal [] root.components ++ above ++ [name]) = none)
    (hshort : ∀ part ∈ name :: row ++ [last], Text.size part ≤ longestName)
    (husable : isUsable (root.join (ofNames ((above ++ name :: row) ++ [last])).text))
    (content : ByteArray) :
    ∃ after, disk.writeMaking (root.join (ofNames ((above ++ name :: row) ++ [last])).text)
      content = (after, none) := by
  have hbelow : ∀ more, disk.lookup? (goal [] root.components ++ above ++ name :: more) = none := by
    intro more
    cases more with
    | nil => exact hnone
    | cons next more =>
      have hnothing := htree.lookup?_append (ne_directory_of_none hnone) next more
      rwa [List.append_assoc (goal [] root.components ++ above)] at hnothing
  have hfresh : ∀ first, first ≠ [] → first <+: name :: row →
      disk.lookup? (goal [] root.components ++ above ++ first) = none := by
    intro first hne hbegins
    obtain ⟨head, more, rfl⟩ := List.exists_cons_of_ne_nil hne
    obtain ⟨rfl, -⟩ := List.cons_prefix_cons.1 hbegins
    exact hbelow more
  obtain ⟨made, hmakes⟩ := makeAlong_fresh hreaches.directory
    (fun part hpart => hshort part (List.mem_append_left _ hpart)) hfresh
  rw [← makeAlong_append _ hreaches.walk hreaches.directory, List.append_assoc,
    ← List.map_append] at hmakes
  cases hwrite : disk.writeMaking (root.join (ofNames ((above ++ name :: row) ++ [last])).text)
      content with
  | mk after result =>
    obtain ⟨opened, hopens, hopened, ⟨rfl, -⟩ | ⟨-, -, hfails⟩⟩ := exists_made htree hall hwrite
    · exact ⟨after, rfl⟩
    · exfalso
      obtain rfl : opened = made := (hopened husable).trans (by rw [hmakes])
      obtain ⟨-, hopen, hdirectory⟩ | ⟨hsome, -⟩ := foldlM_of_makeAlong htree hmakes
      · have hplace := place_ofNames root hall
        rw [place] at hplace
        refine hfails content _ (write_eq_ok_iff.2 ⟨locate_eq_ok_iff.2 ⟨husable, ?_⟩, ?_, rfl⟩)
        · rw [components_join root hall, List.map_append, ← List.append_assoc, List.foldlM_append,
            hopen, ok_bind, goal_append _ _ (List.map _ [last])]
          simp only [List.map_singleton, List.foldlM_cons, List.foldlM_nil]
          rw [step_eq_ok_iff.2 ⟨hdirectory, fun part hpart => ?_, rfl⟩]
          · rfl
          · cases hpart
            exact hshort last (by simp)
        · rw [hplace]
          intro hnew
          have hbefore : disk.lookup? (goal [] root.components ++ (above ++ name :: row ++ [last])) =
              none := by
            simpa using hbelow (row ++ [last])
          obtain ⟨first, hbegins, hfirst⟩ :=
            hopens.exists_begins hreaches hbefore (ne_none_of_directory hnew)
          have hlength := hbegins.length_le
          rw [← List.append_cancel_left hfirst] at hlength
          simp at hlength
      · exact absurd rfl hsome

/-! ### Changes one by one -/

theorem makeChangesFrom_cons (root : Path) (change : DiskChange) (rest : List DiskChange)
    (saved : List (Path × Option ByteArray)) (disk : Disk) :
    makeChangesFrom root (change :: rest) saved disk =
      match disk.snapshot (root.join change.path.text) with
      | .error error => (saved.foldl putBack disk, some error)
      | .ok before =>
        match disk.perform (root.join change.path.text) change with
        | (next, some error) =>
          (((root.join change.path.text, before) :: saved).foldl putBack next, some error)
        | (next, none) =>
          makeChangesFrom root rest ((root.join change.path.text, before) :: saved) next := (rfl)

end CodeGraph.Disk
