import CodeGraph.Proofs.Disk.Changes

/-!
# Changes that fail

When a change fails, the files that were touched are put back, the last one first. The directories
that were made by then stay, so the files are put back on another disk than they were taken from.
The two disks still hold the same files, except that a directory may stand in the place of one: it
was removed, and directories were made there for a file to be written below.
-/

namespace CodeGraph.Disk

open CodeGraph.Path

variable {start disk before middle after shadow restored : Disk} {root path : Path}
  {names : List String} {change : DiskChange} {changes done rest : List DiskChange}
  {saved : List (Path × Option ByteArray)} {held : Option ByteArray}

/-! ### Paths that climb -/

/-- Wherever the path climbs, it climbs out of a directory. -/
def Straight (disk : Disk) (path : Path) : Prop :=
  ∀ first, first ++ [.parent] <+: path.components → disk.lookup? (goal [] first) = some .directory

theorem Straight.keeps (hstraight : before.Straight path)
    (hkeeps : before.KeepsDirectories after) : after.Straight path :=
  fun first hclimbs => hkeeps _ (hstraight first hclimbs)

/-- Under a root that does not climb names lead straight. -/
theorem straight_join (disk : Disk) (hroot : .parent ∉ root.components) (hpath : path.IsNormal) :
    disk.Straight (root.join path.text) := by
  obtain ⟨names, -, hall, rfl⟩ := hpath
  intro first hclimbs
  have hmem : Component.parent ∈ root.components ++ names.map Component.named := by
    rw [← components_join root hall]
    exact hclimbs.subset (by simp)
  simp [hroot] at hmem

/-- From a place that is no directory a straight path goes on by names. -/
theorem Straight.exists_names (hstraight : disk.Straight path) (htree : disk.IsTree)
    {first rest : List Component} (hcomponents : path.components = first ++ rest)
    (hfirst : disk.lookup? (goal [] first) ≠ some .directory) :
    ∃ row : List String, rest = row.map Component.named := by
  induction rest generalizing first with
  | nil => exact ⟨[], rfl⟩
  | cons component rest ih =>
    have hne : first ≠ [] := by
      rintro rfl
      exact hfirst rfl
    have hinside : component ∈ path.components.tail := by
      rw [hcomponents, List.tail_append_of_ne_nil hne]
      simp
    obtain ⟨hroot, hcurrent⟩ := (formed_components path).tail component hinside
    have hnext : path.components = (first ++ [component]) ++ rest := by
      rw [hcomponents, List.append_assoc]
      rfl
    cases component with
    | root => exact absurd rfl hroot
    | current => exact absurd rfl hcurrent
    | parent => exact absurd (hstraight first ⟨rest, hnext.symm⟩) hfirst
    | named name =>
      have hbelow : disk.lookup? (goal [] (first ++ [.named name])) ≠ some .directory := by
        rw [goal_append]
        exact ne_directory_of_none (htree.lookup?_append hfirst name [])
      obtain ⟨row, rfl⟩ := ih hnext hbelow
      exact ⟨name :: row, rfl⟩

/-- A step fails for want of an entry only where nothing is. -/
theorem lookup?_of_step_eq_notFound {component : Component}
    (hstep : disk.step names component = .error .notFound) : disk.lookup? names = none := by
  unfold step at hstep
  split at hstep
  · assumption
  · cases hstep
  · cases component with
    | named name =>
      dsimp only at hstep
      split at hstep <;> cases hstep
    | _ => cases hstep

theorem exists_of_foldlM_eq_notFound {components : List Component}
    (hwalk : components.foldlM disk.step names = .error .notFound) :
    ∃ first component rest, components = first ++ component :: rest ∧
      disk.lookup? (goal names first) = none := by
  induction components generalizing names with
  | nil => cases hwalk
  | cons component rest ih =>
    rw [List.foldlM_cons] at hwalk
    cases hstep : disk.step names component with
    | error error =>
      rw [hstep] at hwalk
      obtain rfl := Except.error.inj hwalk
      exact ⟨[], component, rest, rfl, lookup?_of_step_eq_notFound hstep⟩
    | ok next =>
      rw [hstep, ok_bind] at hwalk
      obtain ⟨-, -, rfl⟩ := step_eq_ok_iff.1 hstep
      obtain ⟨first, other, others, rfl, hnone⟩ := ih hwalk
      exact ⟨component :: first, other, others, rfl, hnone⟩

/-- What is not found by a straight path is not there. -/
theorem Straight.lookup?_of_read (hstraight : disk.Straight path) (htree : disk.IsTree)
    (hread : disk.read path = .error .notFound) : disk.lookup? (goal [] path.components) = none := by
  rw [read] at hread
  cases hlocate : disk.locate path with
  | error error =>
    rw [hlocate] at hread
    obtain rfl := Except.error.inj hread
    rw [locate] at hlocate
    split at hlocate
    · obtain ⟨first, component, rest, hcomponents, hnone⟩ := exists_of_foldlM_eq_notFound hlocate
      have hfirst := ne_directory_of_none hnone
      obtain ⟨row, hrow⟩ := hstraight.exists_names htree hcomponents hfirst
      rw [hcomponents, goal_append, hrow, goal_named]
      cases row with
      | nil => cases hrow
      | cons name row => exact htree.lookup?_append hfirst name row
    · cases hlocate
  | ok found =>
    obtain rfl := eq_goal_of_locate hlocate
    rw [hlocate, ok_bind] at hread
    split at hread
    · assumption
    · cases hread
    · cases hread

/-! ### Single changes -/

theorem snapshot_eq_ok (hsnapshot : disk.snapshot path = .ok held) :
    (∃ content, held = some content ∧ disk.read path = .ok content) ∨
      held = none ∧ disk.read path = .error .notFound := by
  rw [snapshot] at hsnapshot
  split at hsnapshot
  · rename_i content hread
    exact .inl ⟨content, (Except.ok.inj hsnapshot).symm, hread⟩
  · rename_i hread
    exact .inr ⟨(Except.ok.inj hsnapshot).symm, hread⟩
  · cases hsnapshot

/-- A file that is not found needs no removing. -/
theorem discard_of_read (hread : disk.read path = .error .notFound) :
    disk.discard path = .ok disk := by
  have hremove : disk.removeFile path = .error .notFound := by
    rw [removeFile_eq_map_read, hread]
    rfl
  rw [discard, hremove]

/-- A file that is written brings no directory. -/
theorem directory_of_write {content : ByteArray} (hwrite : disk.write path content = .ok after)
    (hafter : after.lookup? names = some .directory) : disk.lookup? names = some .directory := by
  obtain ⟨-, hplace, rfl⟩ := write_eq_ok_iff.1 hwrite
  rw [lookup?_put disk (ne_nil_of_ne_directory hplace)] at hafter
  split at hafter
  · cases hafter
  · exact hafter

/-- Nor does a file that is removed. -/
theorem directory_of_discard (hdiscard : disk.discard path = .ok after)
    (hafter : after.lookup? names = some .directory) : disk.lookup? names = some .directory := by
  rw [discard] at hdiscard
  split at hdiscard
  · obtain rfl := Except.ok.inj hdiscard
    exact hafter
  · rw [removeFile_eq_map_read] at hdiscard
    cases hread : disk.read path with
    | error error =>
      rw [hread] at hdiscard
      cases hdiscard
    | ok content =>
      rw [hread] at hdiscard
      obtain rfl := Except.ok.inj hdiscard
      have hplace := ne_directory_of_file (read_eq_ok_iff.1 hread).2
      rw [lookup?_erase disk (ne_nil_of_ne_directory hplace)] at hafter
      split at hafter
      · cases hafter
      · exact hafter

/-- What is to be undone of one change that was made. -/
structure Performed (before after : Disk) (path : Path) (held : Option ByteArray) : Prop where
  tree : after.IsTree
  keeps : before.KeepsDirectories after
  others : ∀ names, names ≠ goal [] path.components → ∀ content,
    after.lookup? names = some (.file content) ↔ before.lookup? names = some (.file content)
  found : ∀ content, held = some content → before.read path = .ok content
  absent : held = none → before.lookup? (goal [] path.components) = none
  reached : ∀ content, after.lookup? (goal [] path.components) = some (.file content) →
    after.read path = .ok content

/-- A file that was looked at before can be removed. -/
theorem exists_discard_of_snapshot (htree : before.IsTree) (hstraight : before.Straight path)
    (hsnapshot : before.snapshot path = .ok held) :
    ∃ after, before.discard path = .ok after ∧ Performed before after path held ∧
      after.lookup? (goal [] path.components) = none := by
  obtain ⟨content, rfl, hread⟩ | ⟨rfl, hread⟩ := snapshot_eq_ok hsnapshot
  · obtain ⟨after, hdiscard, hsets, hnone⟩ := exists_discard htree hread
    refine ⟨after, hdiscard, ⟨hsets.tree, hsets.keeps, hsets.others, ?_, nofun, ?_⟩, hnone⟩
    · rintro content ⟨rfl⟩
      exact hread
    · exact fun content hentry => absurd hentry (hsets.absent rfl content)
  · have hnone := hstraight.lookup?_of_read htree hread
    refine ⟨before, discard_of_read hread, ⟨htree, fun _ => id, fun _ _ _ => .rfl, nofun,
      fun _ => hnone, fun content hentry => ?_⟩, hnone⟩
    cases hnone.symm.trans hentry

/-- **A change that is made can be undone.** -/
theorem performed_of_perform (htree : before.IsTree) (hstraight : before.Straight path)
    (hsnapshot : before.snapshot path = .ok held)
    (hperform : before.perform path change = (after, none)) : Performed before after path held := by
  cases change with
  | write written text =>
    have hsets := sets_writeMaking htree hperform
    refine ⟨hsets.tree, hsets.keeps, hsets.others, fun content hheld => ?_, fun hheld => ?_,
      fun content hentry => ?_⟩
    · obtain ⟨found, hfound, hread⟩ | ⟨hnone, -⟩ := snapshot_eq_ok hsnapshot
      · rwa [← Option.some.inj (hheld.symm.trans hfound)] at hread
      · cases hheld.symm.trans hnone
    · obtain ⟨found, hfound, -⟩ | ⟨-, hread⟩ := snapshot_eq_ok hsnapshot
      · cases hheld.symm.trans hfound
      · exact hstraight.lookup?_of_read htree hread
    · have hread := hsets.held _ rfl
      have hwritten := (read_eq_ok_iff.1 hread).2
      obtain ⟨rfl⟩ := hwritten.symm.trans hentry
      exact hread
  | remove removed =>
    obtain ⟨left, hdiscard, hperformed, -⟩ := exists_discard_of_snapshot htree hstraight hsnapshot
    rw [perform, hdiscard] at hperform
    obtain rfl := (Prod.mk.inj hperform).1
    exact hperformed

/-- A change that fails where a file was looked at leaves nothing but directories behind. -/
theorem widens_perform (htree : before.IsTree) (hstraight : before.Straight path)
    (hsnapshot : before.snapshot path = .ok held) {error : DiskError}
    (hperform : before.perform path change = (after, some error)) :
    before.Widens after ∧ after.IsTree ∧ after.putBack (path, held) = after := by
  cases change with
  | write written text =>
    obtain ⟨hwidens, hafter, hback⟩ := widens_writeMaking htree hperform
    exact ⟨hwidens, hafter, hback held⟩
  | remove removed =>
    obtain ⟨left, hdiscard, -⟩ := exists_discard_of_snapshot htree hstraight hsnapshot
    rw [perform, hdiscard] at hperform
    cases (Prod.mk.inj hperform).2

/-- Only a change that removes a file leaves nothing in its place. -/
theorem eq_remove_of_perform (htree : before.IsTree)
    (hperform : before.perform path change = (after, none))
    (hafter : after.lookup? (goal [] path.components) = none) :
    ∃ removed, change = .remove removed := by
  cases change with
  | write written text =>
    have hread := (sets_writeMaking htree hperform).held _ rfl
    cases hafter.symm.trans (read_eq_ok_iff.1 hread).2
  | remove removed => exact ⟨removed, rfl⟩

/-- A directory that a change makes lies on the way to what is to be written. -/
theorem exists_write_of_directory (htree : before.IsTree) (hstraight : before.Straight path)
    {result : Option DiskError} (hperform : before.perform path change = (after, result))
    (hbefore : before.lookup? names ≠ some .directory)
    (hafter : after.lookup? names = some .directory) :
    before.lookup? names = none ∧ (∃ written text, change = .write written text) ∧
      ∃ name row, goal [] path.components = names ++ name :: row := by
  cases change with
  | write written text =>
    obtain ⟨made, hopens, -, hmade⟩ := exists_making htree hperform
    have hdirectory : made.lookup? names = some .directory := by
      obtain ⟨-, hwrite⟩ | ⟨-, rfl, -⟩ := hmade
      · exact directory_of_write hwrite hafter
      · exact hafter
    have hnone : before.lookup? names = none := by
      obtain hsame | ⟨hnone, -⟩ := hopens.widens names
      · exact absurd (hsame.symm.trans hdirectory) hbefore
      · exact hnone
    obtain ⟨first, hbegins, rfl⟩ := hopens.new names hnone (ne_none_of_directory hdirectory)
    obtain ⟨component, rest, hcomponents⟩ :
        ∃ component rest, path.components = first ++ component :: rest := by
      obtain hnil | ⟨init, last, hcomponents⟩ := path.components.eq_nil_or_concat'
      · rw [hnil, List.dropLast_nil, List.prefix_nil] at hbegins
        rw [hbegins] at hbefore
        exact absurd rfl hbefore
      · rw [hcomponents, List.dropLast_concat] at hbegins
        obtain ⟨more, rfl⟩ := hbegins
        rw [hcomponents, List.append_assoc]
        cases more with
        | nil => exact ⟨last, [], rfl⟩
        | cons component more => exact ⟨component, more ++ [last], rfl⟩
    obtain ⟨row, hrow⟩ := hstraight.exists_names htree hcomponents hbefore
    refine ⟨hnone, ⟨written, text, rfl⟩, ?_⟩
    cases row with
    | nil => cases hrow
    | cons name row =>
      exact ⟨name, row, by rw [hcomponents, goal_append, hrow, goal_named]⟩
  | remove removed =>
    exfalso
    rw [perform] at hperform
    split at hperform
    · obtain rfl := (Prod.mk.inj hperform).1
      exact hbefore hafter
    · rename_i left hdiscard
      obtain rfl := (Prod.mk.inj hperform).1
      exact hbefore (directory_of_discard hdiscard hafter)

/-! ### Undoing -/

/-- What undoing has come to, beside the disk that it is to come to: both hold the same files, but a
directory may stand in the place of one. -/
structure Shadows (disk shadow : Disk) : Prop where
  tree : shadow.IsTree
  keeps : disk.KeepsDirectories shadow
  held : ∀ names content, shadow.lookup? names = some (.file content) →
    disk.lookup? names = some (.file content)
  left : ∀ names content, disk.lookup? names = some (.file content) →
    shadow.lookup? names = some (.file content) ∨ shadow.lookup? names = some .directory

theorem Widens.shadows (hwidens : before.Widens after) (htree : after.IsTree) :
    before.Shadows after :=
  ⟨htree, hwidens.keepsDirectories, fun _ _ => hwidens.file_iff.1,
    fun _ _ h => .inl (hwidens.file_iff.2 h)⟩

/-- To undo a change it is enough to see to its own file. -/
theorem Performed.shadows (hperformed : Performed before after path held)
    (hshadows : after.Shadows shadow) (htree : restored.IsTree)
    (hkeeps : shadow.KeepsDirectories restored)
    (hothers : ∀ names, names ≠ goal [] path.components → ∀ content,
      restored.lookup? names = some (.file content) ↔ shadow.lookup? names = some (.file content))
    (hheld : ∀ content, restored.lookup? (goal [] path.components) = some (.file content) →
      before.lookup? (goal [] path.components) = some (.file content))
    (hleft : ∀ content, before.lookup? (goal [] path.components) = some (.file content) →
      restored.lookup? (goal [] path.components) = some (.file content) ∨
        restored.lookup? (goal [] path.components) = some .directory) :
    before.Shadows restored := by
  refine ⟨htree, (hperformed.keeps.trans hshadows.keeps).trans hkeeps,
    fun names content hentry => ?_, fun names content hentry => ?_⟩
  · by_cases hplace : names = goal [] path.components
    · subst hplace
      exact hheld content hentry
    · apply (hperformed.others names hplace content).1
      apply hshadows.held
      exact (hothers names hplace content).1 hentry
  · by_cases hplace : names = goal [] path.components
    · subst hplace
      exact hleft content hentry
    · have hafter := (hperformed.others names hplace content).2 hentry
      exact (hshadows.left names content hafter).imp (hothers names hplace content).2 (hkeeps names)

theorem putBack_of_write {content : ByteArray} (hwrite : disk.write path content = .ok after) :
    disk.putBack (path, some content) = after := by
  rw [putBack]
  simp only [hwrite]
  rfl

theorem putBack_of_discard (hdiscard : disk.discard path = .ok after) :
    disk.putBack (path, none) = after := by
  rw [putBack]
  simp only [hdiscard]
  rfl

/-- A file that was there is written again, if no directory is in the way. -/
theorem Shadows.putBack_some (hshadows : after.Shadows shadow) {content : ByteArray}
    (hperformed : Performed before after path (some content)) :
    before.Shadows (shadow.putBack (path, some content)) := by
  obtain ⟨hlocate, hentry⟩ := read_eq_ok_iff.1 (hperformed.found content rfl)
  by_cases hplace : shadow.lookup? (goal [] path.components) = some .directory
  · have hself : shadow.putBack (path, some content) = shadow :=
      putBack_eq_self (fun _ _ hwrite => (write_eq_ok_iff.1 hwrite).2.1 hplace) _
    rw [hself]
    refine hperformed.shadows hshadows hshadows.tree (fun _ => id) (fun _ _ _ => .rfl)
      (fun other hother => ?_) fun _ _ => .inr hplace
    cases hplace.symm.trans hother
  · have hreached := locate_of_keepsDirectories (hperformed.keeps.trans hshadows.keeps) hlocate
    have hwrite : shadow.write path content = .ok _ := write_eq_ok_iff.2 ⟨hreached, hplace, rfl⟩
    have hsets := sets_write hshadows.tree hwrite
    have hwritten := (read_eq_ok_iff.1 (hsets.held content rfl)).2
    rw [putBack_of_write hwrite]
    apply hperformed.shadows hshadows hsets.tree hsets.keeps hsets.others
    · exact fun other hother => hentry.trans (hwritten.symm.trans hother)
    · exact fun other hother => .inl (hwritten.trans (hentry.symm.trans hother))

/-- A file that was not there is removed again. -/
theorem Shadows.putBack_none (hshadows : after.Shadows shadow)
    (hperformed : Performed before after path none) :
    before.Shadows (shadow.putBack (path, none)) := by
  have hnone := hperformed.absent rfl
  by_cases hheld : ∃ content, shadow.read path = .ok content
  · obtain ⟨content, hread⟩ := hheld
    obtain ⟨restored, hdiscard, hsets, -⟩ := exists_discard hshadows.tree hread
    rw [putBack_of_discard hdiscard]
    refine hperformed.shadows hshadows hsets.tree hsets.keeps hsets.others
      (fun other hother => absurd hother (hsets.absent rfl other)) fun other hother => ?_
    cases hnone.symm.trans hother
  · rw [putBack_none_eq_self (not_exists.1 hheld)]
    refine hperformed.shadows hshadows hshadows.tree (fun _ => id) (fun _ _ _ => .rfl)
      (fun other hother => ?_) fun other hother => ?_
    · obtain ⟨hlocate, -⟩ := read_eq_ok_iff.1 (hperformed.reached other (hshadows.held _ _ hother))
      have hreached := locate_of_keepsDirectories hshadows.keeps hlocate
      exact absurd ⟨other, read_eq_ok_iff.2 ⟨hreached, hother⟩⟩ hheld
    · cases hnone.symm.trans hother

/-- **Putting one file back undoes one change.** -/
theorem Shadows.putBack (hshadows : after.Shadows shadow)
    (hperformed : Performed before after path held) :
    before.Shadows (shadow.putBack (path, held)) := by
  cases held with
  | some content => exact hshadows.putBack_some hperformed
  | none => exact hshadows.putBack_none hperformed

/-- Putting files back makes no directory. -/
theorem directory_of_putBack
    (hafter : lookup? (disk.putBack (path, held)) names = some .directory) :
    disk.lookup? names = some .directory := by
  cases held with
  | some content =>
    cases hwrite : disk.write path content with
    | ok written =>
      rw [putBack_of_write hwrite] at hafter
      exact directory_of_write hwrite hafter
    | error error => rwa [putBack_eq_self (write_ne_ok hwrite)] at hafter
  | none =>
    cases hdiscard : disk.discard path with
    | ok left =>
      rw [putBack_of_discard hdiscard] at hafter
      exact directory_of_discard hdiscard hafter
    | error error =>
      rw [Disk.putBack] at hafter
      simp only [hdiscard] at hafter
      exact hafter

theorem directory_of_foldl_putBack
    (hafter : lookup? (saved.foldl Disk.putBack disk) names = some .directory) :
    disk.lookup? names = some .directory := by
  induction saved generalizing disk with
  | nil => exact hafter
  | cons first saved ih => exact directory_of_putBack (ih hafter)

/-! ### Runs of changes -/

/-- A file was to be removed, and a later one to be written below its place. -/
def Overbuilt (root : Path) (changes : List DiskChange) (names : List String) : Prop :=
  ∃ removed written text, [.remove removed, .write written text].Sublist changes ∧
    place root removed = names ∧ ∃ name row, place root written = names ++ name :: row

theorem Overbuilt.append (hoverbuilt : Overbuilt root done names) (rest : List DiskChange) :
    Overbuilt root (done ++ rest) names := by
  obtain ⟨removed, written, text, hsublist, hplaces⟩ := hoverbuilt
  exact ⟨removed, written, text, hsublist.trans (List.sublist_append_left _ _), hplaces⟩

/-- A run of changes that are made so far, and what is saved of them. -/
structure Begun (root : Path) (start : Disk) (done : List DiskChange)
    (saved : List (Path × Option ByteArray)) (disk : Disk) : Prop where
  tree : disk.IsTree
  keeps : start.KeepsDirectories disk
  gone : ∀ names content, start.lookup? names = some (.file content) → disk.lookup? names = none →
    ∃ removed, .remove removed ∈ done ∧ place root removed = names
  built : ∀ names content, start.lookup? names = some (.file content) →
    disk.lookup? names = some .directory → Overbuilt root done names
  back : ∀ shadow, disk.Shadows shadow → start.Shadows (saved.foldl Disk.putBack shadow)

theorem Begun.refl (htree : disk.IsTree) : Begun root disk [] [] disk where
  tree := htree
  keeps := fun _ => id
  gone := fun _ _ hfile hnone => nomatch hfile.symm.trans hnone
  built := fun _ _ hfile hdirectory => nomatch hfile.symm.trans hdirectory
  back := fun _ => id

/-- A directory in the place of a file is on the way to a file that is written. -/
theorem Begun.overbuilt (hbegun : Begun root start done saved disk)
    (hstraight : start.Straight (root.join change.path.text)) {result : Option DiskError}
    (hperform : disk.perform (root.join change.path.text) change = (after, result))
    {content : ByteArray} (hstart : start.lookup? names = some (.file content))
    (hafter : after.lookup? names = some .directory) :
    Overbuilt root (done ++ [change]) names := by
  by_cases hdisk : disk.lookup? names = some .directory
  · exact (hbegun.built names content hstart hdisk).append _
  · obtain ⟨hnone, ⟨written, text, rfl⟩, hbelow⟩ := exists_write_of_directory hbegun.tree
      (hstraight.keeps hbegun.keeps) hperform hdisk hafter
    obtain ⟨removed, hremoved, hplace⟩ := hbegun.gone names content hstart hnone
    refine ⟨removed, written, text, ?_, hplace, hbelow⟩
    exact (List.singleton_sublist.2 hremoved).append (List.Sublist.refl [_])

/-- One more change that is made. -/
theorem Begun.perform (hbegun : Begun root start done saved disk)
    (hstraight : start.Straight (root.join change.path.text))
    (hsnapshot : disk.snapshot (root.join change.path.text) = .ok held)
    (hperform : disk.perform (root.join change.path.text) change = (after, none)) :
    Begun root start (done ++ [change]) ((root.join change.path.text, held) :: saved) after := by
  have hperformed := performed_of_perform hbegun.tree (hstraight.keeps hbegun.keeps) hsnapshot
    hperform
  refine ⟨hperformed.tree, hbegun.keeps.trans hperformed.keeps, fun names content hstart hnone => ?_,
    fun names content hstart => hbegun.overbuilt hstraight hperform hstart,
    fun shadow hshadow => hbegun.back _ (hshadow.putBack hperformed)⟩
  cases hentry : disk.lookup? names with
  | none =>
    obtain ⟨removed, hremoved, hplace⟩ := hbegun.gone names content hstart hentry
    exact ⟨removed, List.mem_append_left _ hremoved, hplace⟩
  | some entry =>
    cases entry with
    | directory => cases hnone.symm.trans (hperformed.keeps names hentry)
    | file found =>
      have hplace : names = goal [] (root.join change.path.text).components := by
        by_contra hother
        cases hnone.symm.trans ((hperformed.others names hother found).2 hentry)
      obtain ⟨removed, rfl⟩ := eq_remove_of_perform hbegun.tree hperform (hplace ▸ hnone)
      exact ⟨removed, by simp, hplace.symm⟩

/-- A run that fails puts back what it can. -/
theorem Begun.restores (hbegun : Begun root start done saved disk)
    (hstraight : ∀ change ∈ rest, start.Straight (root.join change.path.text)) {error : DiskError}
    (hfailed : makeChangesFrom root rest saved disk = (after, some error)) :
    start.Shadows after ∧ ∀ names content, start.lookup? names = some (.file content) →
      after.lookup? names = some .directory → Overbuilt root (done ++ rest) names := by
  induction rest generalizing disk done saved with
  | nil => cases (Prod.mk.inj hfailed).2
  | cons change rest ih =>
    have hfirst := hstraight change List.mem_cons_self
    rw [makeChangesFrom_cons] at hfailed
    split at hfailed
    · obtain rfl := (Prod.mk.inj hfailed).1
      refine ⟨hbegun.back disk ((Widens.refl disk).shadows hbegun.tree),
        fun names content hstart hdirectory => ?_⟩
      exact (hbegun.built names content hstart (directory_of_foldl_putBack hdirectory)).append _
    · rename_i held hsnapshot
      split at hfailed
      · rename_i made error hperform
        obtain rfl := (Prod.mk.inj hfailed).1
        obtain ⟨hwidens, htree, hself⟩ := widens_perform hbegun.tree
          (hfirst.keeps hbegun.keeps) hsnapshot hperform
        rw [List.foldl_cons, hself]
        refine ⟨hbegun.back made (hwidens.shadows htree),
          fun names content hstart hdirectory => ?_⟩
        have hoverbuilt := hbegun.overbuilt hfirst hperform hstart
          (directory_of_foldl_putBack hdirectory)
        rw [List.append_cons]
        exact hoverbuilt.append rest
      · rename_i next hperform
        rw [List.append_cons]
        exact ih (hbegun.perform hfirst hsnapshot hperform)
          (fun other hother => hstraight other (List.mem_cons_of_mem _ hother)) hfailed

/-- **Changes that fail leave every file as it was**, except where a file was removed and a later one
was to be written below its place: there a directory may be left instead. -/
theorem makeChanges_restores (htree : disk.IsTree)
    (hstraight : ∀ change ∈ changes, disk.Straight (root.join change.path.text))
    {error : DiskError} (hfailed : disk.makeChanges root changes = (after, some error))
    (names : List String) (content : ByteArray) :
    (after.lookup? names = some (.file content) → disk.lookup? names = some (.file content)) ∧
      (disk.lookup? names = some (.file content) → after.lookup? names = some (.file content) ∨
        after.lookup? names = some .directory ∧ Overbuilt root changes names) := by
  obtain ⟨hshadows, hbuilt⟩ := (Begun.refl htree).restores hstraight hfailed
  refine ⟨hshadows.held names content, fun hentry => ?_⟩
  exact (hshadows.left names content hentry).imp_right
    fun hdirectory => ⟨hdirectory, hbuilt names content hentry hdirectory⟩

/-- A file moves, but what imports it is a directory on disk by now. -/
theorem makeChanges_restores_moved :
    let text := "export function f() {}\n"
    let disk : Disk := ⟨(empty.entries.put ["m.js"] .directory).put ["a.js"] (.file text.toUTF8)⟩
    let root : Path := ⟨"."⟩
    let changes : List DiskChange := [.remove ⟨"a.js"⟩, .write ⟨"b.js"⟩ text,
      .write ⟨"m.js"⟩ "import { f } from './b.js';\n"]
    let after := (disk.makeChanges root changes).1
    disk.IsTree ∧ (∀ change ∈ changes, disk.Straight (root.join change.path.text)) ∧
      disk.makeChanges root changes = (after, some .isDirectory) ∧
      after.lookup? ["a.js"] = some (.file text.toUTF8) ∧
      ∀ content, after.lookup? ["b.js"] ≠ some (.file content) := by
  intro text disk root changes after
  have htree : disk.IsTree := (isTree_empty.put_top .directory nofun).put_top _ nofun
  have hnormal : ∀ change ∈ changes, inProject? ⟨""⟩ change.path = some change.path := by
    decide +kernel
  have hstraight : ∀ change ∈ changes, disk.Straight (root.join change.path.text) :=
    fun change hchange => straight_join disk (by decide)
      (isNormal_of_inProject? (hnormal change hchange))
  have herror : (disk.makeChanges root changes).2 = some .isDirectory := by decide +kernel
  have hfailed : disk.makeChanges root changes = (after, some .isDirectory) := Prod.ext rfl herror
  have hfile : after.isFile (root.join "a.js") = true := by decide +kernel
  have hplace : goal [] (root.join "a.js").components = ["a.js"] := by decide
  have hrestores := makeChanges_restores htree hstraight hfailed
  refine ⟨htree, hstraight, hfailed, ?_, fun content hentry => ?_⟩
  · obtain ⟨content, hentry⟩ := exists_file_of_isFile hfile
    rw [hplace] at hentry
    have hbefore := (hrestores ["a.js"] content).1 hentry
    obtain ⟨rfl⟩ : some (DiskEntry.file text.toUTF8) = some (.file content) := hbefore
    exact hentry
  · have hbefore := (hrestores ["b.js"] content).1 hentry
    cases hbefore

/-- A file moves below its own path, so that it cannot be put back. -/
theorem makeChanges_loses_moved :
    let text := "export function f() {}\n"
    let disk : Disk := ⟨(empty.entries.put ["m.js"] .directory).put ["a.js"] (.file text.toUTF8)⟩
    let root : Path := ⟨"."⟩
    let changes : List DiskChange := [.remove ⟨"a.js"⟩, .write ⟨"a.js/b.js"⟩ text,
      .write ⟨"m.js"⟩ "import { f } from './a.js/b.js';\n"]
    let after := (disk.makeChanges root changes).1
    disk.IsTree ∧ disk.makeChanges root changes = (after, some .isDirectory) ∧
      disk.lookup? ["a.js"] = some (.file text.toUTF8) ∧
      ¬ ∀ names content, after.lookup? names = some (.file content) ↔
        disk.lookup? names = some (.file content) := by
  intro text disk root changes after
  have htree : disk.IsTree := (isTree_empty.put_top .directory nofun).put_top _ nofun
  have herror : (disk.makeChanges root changes).2 = some .isDirectory := by decide +kernel
  have hlocate : after.locate (root.join "a.js") = .ok ["a.js"] := by decide +kernel
  have hfile : after.isFile (root.join "a.js") = false := by decide +kernel
  refine ⟨htree, Prod.ext rfl herror, rfl, fun hrestores => ?_⟩
  have hentry := (hrestores ["a.js"] text.toUTF8).2 rfl
  rw [isFile, find?, hlocate] at hfile
  simp only [hentry] at hfile
  cases hfile

end CodeGraph.Disk
