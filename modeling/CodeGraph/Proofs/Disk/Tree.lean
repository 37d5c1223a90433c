import CodeGraph.Proofs.Disk.Place
import CodeGraph.Proofs.Except
import CodeGraph.Proofs.Table

/-!
# Trees on disk

On a disk that is a tree everything lies in a directory. Where a path leads does not depend on the
disk, only whether it can be followed does, and directories that are made along a path open it
without touching a file.
-/

namespace CodeGraph.Disk

variable {disk before middle after made : Disk} {names : List String}

/-! ### Entries -/

theorem lookup?_put (disk : Disk) {names : List String} (hnames : names ≠ []) (entry : DiskEntry)
    (other : List String) :
    lookup? ⟨disk.entries.put names entry⟩ other =
      if other = names then some entry else disk.lookup? other := by
  by_cases hother : other = []
  · subst hother
    rw [if_neg hnames.symm]
    rfl
  · simp only [lookup?, if_neg hother, Table.get?_put]

theorem lookup?_erase (disk : Disk) {names : List String} (hnames : names ≠ [])
    (other : List String) :
    lookup? ⟨disk.entries.erase names⟩ other =
      if other = names then none else disk.lookup? other := by
  by_cases hother : other = []
  · subst hother
    rw [if_neg hnames.symm]
    rfl
  · simp only [lookup?, if_neg hother, Table.get?_erase]

theorem ne_nil_of_ne_directory (hnames : disk.lookup? names ≠ some .directory) : names ≠ [] := by
  rintro rfl
  exact hnames rfl

theorem ne_directory_of_none (hnames : disk.lookup? names = none) :
    disk.lookup? names ≠ some .directory := by
  rw [hnames]
  exact nofun

theorem ne_directory_of_file {content : ByteArray}
    (hnames : disk.lookup? names = some (.file content)) : disk.lookup? names ≠ some .directory := by
  rw [hnames]
  exact nofun

theorem ne_none_of_directory (hnames : disk.lookup? names = some .directory) :
    disk.lookup? names ≠ none := by
  rw [hnames]
  exact nofun

/-- Everything lies in a directory. -/
def IsTree (disk : Disk) : Prop :=
  ∀ names name, disk.lookup? (names ++ [name]) ≠ none → disk.lookup? names = some .directory

theorem isTree_empty : IsTree empty :=
  fun _ _ hsome => absurd (if_neg (by simp)) hsome

/-- Below nothing is nothing, and below a file neither. -/
theorem IsTree.lookup?_append (htree : disk.IsTree) (hnames : disk.lookup? names ≠ some .directory)
    (name : String) (rest : List String) : disk.lookup? (names ++ name :: rest) = none := by
  induction rest generalizing names name with
  | nil =>
    by_contra hsome
    exact hnames (htree names name hsome)
  | cons next rest ih =>
    have hnone : disk.lookup? (names ++ [name]) = none := by
      by_contra hsome
      exact hnames (htree names name hsome)
    have hrest := ih (ne_directory_of_none hnone) next
    rwa [List.append_assoc] at hrest

/-- A tree stays one when an entry comes into a directory and, if it is none itself, in the place of
no directory. -/
theorem IsTree.put (htree : disk.IsTree) {name : String} (entry : DiskEntry)
    (hparent : disk.lookup? names = some .directory)
    (hplace : disk.lookup? (names ++ [name]) ≠ some .directory) :
    IsTree ⟨disk.entries.put (names ++ [name]) entry⟩ := by
  intro others other hsome
  have hne : names ++ [name] ≠ [] := List.append_ne_nil_of_right_ne_nil _ (List.cons_ne_nil _ _)
  rw [lookup?_put disk hne] at hsome ⊢
  split at hsome
  · rename_i heq
    obtain ⟨rfl, -⟩ := List.append_inj' heq rfl
    rwa [if_neg (by simp)]
  · have hdirectory := htree others other hsome
    rw [if_neg]
    · exact hdirectory
    · rintro rfl
      exact hplace hdirectory

theorem IsTree.put_top (htree : disk.IsTree) {name : String} (entry : DiskEntry)
    (hplace : disk.lookup? [name] ≠ some .directory) : IsTree ⟨disk.entries.put [name] entry⟩ := by
  have hput : IsTree ⟨disk.entries.put ([] ++ [name]) entry⟩ := htree.put entry rfl hplace
  exact hput

theorem IsTree.erase (htree : disk.IsTree) (hnames : disk.lookup? names ≠ some .directory) :
    IsTree ⟨disk.entries.erase names⟩ := by
  intro others other hsome
  have hne := ne_nil_of_ne_directory hnames
  rw [lookup?_erase disk hne] at hsome ⊢
  split at hsome
  · exact absurd rfl hsome
  · have hdirectory := htree others other hsome
    rw [if_neg]
    · exact hdirectory
    · rintro rfl
      exact hnames hdirectory

/-! ### Where paths lead -/

/-- Where one step along a path leads, whether it can be made or not. -/
def advance (names : List String) : Component → List String
  | .root => []
  | .current => names
  | .parent => names.dropLast
  | .named name => names ++ [name]

/-- Where components lead. -/
def goal (names : List String) (components : List Component) : List String :=
  components.foldl advance names

theorem goal_append (names : List String) (first rest : List Component) :
    goal names (first ++ rest) = goal (goal names first) rest :=
  List.foldl_append

theorem goal_named (names row : List String) :
    goal names (row.map Component.named) = names ++ row := by
  induction row generalizing names with
  | nil => exact (List.append_nil names).symm
  | cons name row ih =>
    rw [List.map_cons, goal, List.foldl_cons]
    exact (ih (names ++ [name])).trans (List.append_assoc names [name] row)

/-- A step can be made from a directory, by a name that is not too long. -/
theorem step_eq_ok_iff {component : Component} {found : List String} :
    disk.step names component = .ok found ↔ disk.lookup? names = some .directory ∧
      (∀ name, component = .named name → Text.size name ≤ longestName) ∧
      found = advance names component := by
  unfold step
  cases hentry : disk.lookup? names with
  | none => simp
  | some entry =>
    cases entry with
    | file content => simp
    | directory =>
      cases component with
      | root => simp [advance, eq_comm]
      | current => simp [advance, eq_comm]
      | parent => simp [advance, eq_comm]
      | named name =>
        by_cases hlong : longestName < Text.size name
        · simp [hlong, Nat.not_le_of_lt hlong]
        · simp [hlong, Nat.le_of_not_lt hlong, advance, eq_comm]

/-- Where every directory of one disk is one of another. -/
def KeepsDirectories (before after : Disk) : Prop :=
  ∀ names, before.lookup? names = some .directory → after.lookup? names = some .directory

theorem KeepsDirectories.trans (hfirst : before.KeepsDirectories middle)
    (hsecond : middle.KeepsDirectories after) : before.KeepsDirectories after :=
  fun names h => hsecond names (hfirst names h)

/-- A path that can be followed leads to its goal. -/
theorem eq_goal_of_foldlM {components : List Component} {found : List String}
    (hwalk : components.foldlM disk.step names = .ok found) : found = goal names components := by
  induction components generalizing names with
  | nil => exact (Except.ok.inj hwalk).symm
  | cons component rest ih =>
    rw [List.foldlM_cons] at hwalk
    obtain ⟨next, hstep, hrest⟩ := exists_of_bind_eq_ok hwalk
    obtain ⟨-, -, rfl⟩ := step_eq_ok_iff.1 hstep
    exact ih hrest

theorem foldlM_of_keepsDirectories (hkeeps : before.KeepsDirectories after)
    {components : List Component} {found : List String}
    (hwalk : components.foldlM before.step names = .ok found) :
    components.foldlM after.step names = .ok found := by
  induction components generalizing names with
  | nil => exact hwalk
  | cons component rest ih =>
    rw [List.foldlM_cons] at hwalk ⊢
    obtain ⟨next, hstep, hrest⟩ := exists_of_bind_eq_ok hwalk
    obtain ⟨hdirectory, hshort, hnext⟩ := step_eq_ok_iff.1 hstep
    rw [step_eq_ok_iff.2 ⟨hkeeps names hdirectory, hshort, hnext⟩]
    exact ih hrest

/-- Along a path that can be followed are directories. -/
theorem exists_foldlM_of_append {first rest : List Component} {found : List String}
    (hwalk : (first ++ rest).foldlM disk.step names = .ok found) :
    first.foldlM disk.step names = .ok (goal names first) ∧
      rest.foldlM disk.step (goal names first) = .ok found ∧
      (rest ≠ [] → disk.lookup? (goal names first) = some .directory) := by
  rw [List.foldlM_append] at hwalk
  obtain ⟨middle, hfirst, hrest⟩ := exists_of_bind_eq_ok hwalk
  obtain rfl := eq_goal_of_foldlM hfirst
  refine ⟨hfirst, hrest, fun hne => ?_⟩
  obtain ⟨component, others, rfl⟩ := List.exists_cons_of_ne_nil hne
  rw [List.foldlM_cons] at hrest
  obtain ⟨next, hstep, -⟩ := exists_of_bind_eq_ok hrest
  exact (step_eq_ok_iff.1 hstep).1

/-- No name along a path that can be followed is too long. -/
theorem size_le_of_foldlM {components : List Component} {found : List String}
    (hwalk : components.foldlM disk.step names = .ok found) {name : String}
    (hname : .named name ∈ components) : Text.size name ≤ longestName := by
  obtain ⟨first, rest, rfl⟩ := List.append_of_mem hname
  obtain ⟨-, hrest, -⟩ := exists_foldlM_of_append hwalk
  rw [List.foldlM_cons] at hrest
  obtain ⟨next, hstep, -⟩ := exists_of_bind_eq_ok hrest
  exact (step_eq_ok_iff.1 hstep).2.1 name rfl

/-- A path cannot be followed beyond a place where nothing is. -/
theorem foldlM_eq_notFound {first : List Component} {found : List String}
    (hwalk : first.foldlM disk.step names = .ok found) (hfound : disk.lookup? found = none)
    (component : Component) (rest : List Component) :
    (first ++ component :: rest).foldlM disk.step names = .error .notFound := by
  rw [List.foldlM_append, hwalk, ok_bind, List.foldlM_cons]
  simp only [step, hfound]
  rfl

/-- A path leads to its goal, wherever it can be followed. -/
theorem locate_eq_ok_iff {path : Path} {found : List String} :
    disk.locate path = .ok found ↔
      isUsable path ∧ path.components.foldlM disk.step [] = .ok found := by
  rw [locate]
  split
  · rename_i husable
    exact ⟨fun h => ⟨husable, h⟩, And.right⟩
  · rename_i hunusable
    exact ⟨nofun, fun h => absurd h.1 hunusable⟩

theorem eq_goal_of_locate {path : Path} {found : List String}
    (hfound : disk.locate path = .ok found) : found = goal [] path.components :=
  eq_goal_of_foldlM (locate_eq_ok_iff.1 hfound).2

theorem locate_of_keepsDirectories (hkeeps : before.KeepsDirectories after) {path : Path}
    {found : List String} (hfound : before.locate path = .ok found) :
    after.locate path = .ok found := by
  obtain ⟨husable, hwalk⟩ := locate_eq_ok_iff.1 hfound
  exact locate_eq_ok_iff.2 ⟨husable, foldlM_of_keepsDirectories hkeeps hwalk⟩

/-! ### Disks with more directories -/

/-- A disk with the same files and with more directories, where nothing was. -/
def Widens (before after : Disk) : Prop :=
  ∀ names, after.lookup? names = before.lookup? names ∨
    before.lookup? names = none ∧ after.lookup? names = some .directory

theorem Widens.refl (disk : Disk) : disk.Widens disk := fun _ => .inl rfl

theorem Widens.trans (hfirst : before.Widens middle) (hsecond : middle.Widens after) :
    before.Widens after := by
  intro names
  obtain hsame | ⟨hnone, hdirectory⟩ := hsecond names
  · rw [hsame]
    exact hfirst names
  · obtain hsame | ⟨-, hmade⟩ := hfirst names
    · exact .inr ⟨hsame ▸ hnone, hdirectory⟩
    · cases hnone.symm.trans hmade

theorem Widens.keepsDirectories (hwidens : before.Widens after) :
    before.KeepsDirectories after := by
  intro names hdirectory
  obtain hsame | ⟨hnone, -⟩ := hwidens names
  · exact hsame.trans hdirectory
  · cases hnone.symm.trans hdirectory

theorem Widens.file_iff (hwidens : before.Widens after) {content : ByteArray} :
    after.lookup? names = some (.file content) ↔ before.lookup? names = some (.file content) := by
  obtain hsame | ⟨hnone, hdirectory⟩ := hwidens names
  · rw [hsame]
  · rw [hnone, hdirectory]
    exact ⟨nofun, nofun⟩

/-! ### Directories made along a path -/

/-- In a tree only a name leads from a directory to where no directory is. -/
theorem IsTree.exists_named (htree : disk.IsTree) (hnames : disk.lookup? names = some .directory)
    {component : Component} (hplace : disk.lookup? (advance names component) ≠ some .directory) :
    ∃ name, component = .named name := by
  cases component with
  | root => exact absurd rfl hplace
  | current => exact absurd hnames hplace
  | parent =>
    exfalso
    obtain rfl | ⟨init, last, rfl⟩ := names.eq_nil_or_concat'
    · exact hplace rfl
    · refine hplace ?_
      rw [advance, List.dropLast_concat]
      exact htree init last (ne_none_of_directory hnames)
  | named name => exact ⟨name, rfl⟩

/-- What making directories along components comes to: nothing but directories is new, and only
where the components lead. -/
structure Opens (disk made : Disk) (names : List String) (components : List Component) :
    Prop where
  widens : disk.Widens made
  tree : made.IsTree
  new : ∀ place, disk.lookup? place = none → made.lookup? place ≠ none →
    ∃ first, first <+: components ∧ place = goal names first

theorem Opens.refl (htree : disk.IsTree) (names : List String) (components : List Component) :
    Opens disk disk names components :=
  ⟨.refl disk, htree, fun _ hnone hsome => absurd hnone hsome⟩

theorem Opens.cons {component : Component} {rest : List Component}
    (hfirst : Opens disk middle names [component])
    (hrest : Opens middle made (advance names component) rest) :
    Opens disk made names (component :: rest) := by
  refine ⟨hfirst.widens.trans hrest.widens, hrest.tree, fun place hplace hmade => ?_⟩
  by_cases hmiddle : middle.lookup? place = none
  · obtain ⟨first, hbegins, hplace⟩ := hrest.new place hmiddle hmade
    exact ⟨component :: first, List.cons_prefix_cons.2 ⟨rfl, hbegins⟩, hplace⟩
  · obtain ⟨first, hbegins, hplace⟩ := hfirst.new place hplace hmiddle
    exact ⟨first, hbegins.trans (List.prefix_append [component] rest), hplace⟩

/-- One directory that is made. -/
theorem opens_put (htree : disk.IsTree) (hnames : disk.lookup? names = some .directory)
    {name : String} (hnone : disk.lookup? (names ++ [name]) = none) :
    Opens disk ⟨disk.entries.put (names ++ [name]) .directory⟩ names [.named name] := by
  have hplace := ne_directory_of_none hnone
  have hput := lookup?_put disk (ne_nil_of_ne_directory hplace) .directory
  refine ⟨fun other => ?_, htree.put .directory hnames hplace, fun place hbefore hmade => ?_⟩
  · rw [hput]
    split
    · rename_i heq
      exact .inr ⟨heq ▸ hnone, rfl⟩
    · exact .inl rfl
  · rw [hput] at hmade
    split at hmade
    · rename_i heq
      exact ⟨[.named name], List.prefix_rfl, heq⟩
    · exact absurd hbefore hmade

/-- **Making directories adds directories, and nothing else.** -/
theorem opens_makeAlong (htree : disk.IsTree) (names : List String) (components : List Component) :
    Opens disk (disk.makeAlong names components).1 names components := by
  induction components generalizing disk names with
  | nil =>
    rw [makeAlong]
    split <;> exact .refl htree _ _
  | cons component rest ih =>
    rw [makeAlong]
    split
    · exact .refl htree _ _
    · rename_i next hstep
      obtain ⟨hdirectory, -, rfl⟩ := step_eq_ok_iff.1 hstep
      split
      · rename_i hnone
        obtain ⟨name, rfl⟩ := htree.exists_named hdirectory (ne_directory_of_none hnone)
        have hfirst := opens_put htree hdirectory hnone
        exact hfirst.cons (ih hfirst.tree _)
      · exact (Opens.refl htree names [component]).cons (ih htree _)

/-- A path along which directories were made can be followed to a directory, or leads nowhere
further when one could not be made. -/
theorem foldlM_of_makeAlong (htree : disk.IsTree) {components : List Component}
    {result : Option DiskError} (hmade : disk.makeAlong names components = (made, result)) :
    result = none ∧ components.foldlM made.step names = .ok (goal names components) ∧
        made.lookup? (goal names components) = some .directory ∨
      result ≠ none ∧ ∀ last, ∃ error,
        (components ++ [last]).foldlM made.step names = .error error := by
  induction components generalizing disk names with
  | nil =>
    rw [makeAlong] at hmade
    split at hmade
    · rename_i hdirectory
      obtain ⟨rfl, rfl⟩ := Prod.mk.inj hmade
      exact .inl ⟨rfl, rfl, hdirectory⟩
    · rename_i hdirectory
      obtain ⟨rfl, rfl⟩ := Prod.mk.inj hmade
      refine .inr ⟨nofun, fun last => ?_⟩
      rw [List.nil_append, List.foldlM_cons]
      cases hstep : disk.step names last with
      | error error => exact ⟨error, rfl⟩
      | ok next => exact absurd (step_eq_ok_iff.1 hstep).1 hdirectory
  | cons component rest ih =>
    have hopens := opens_makeAlong htree names (component :: rest)
    rw [hmade] at hopens
    rw [makeAlong] at hmade
    simp only [List.cons_append, List.foldlM_cons]
    split at hmade
    · rename_i error hstep
      obtain ⟨rfl, rfl⟩ := Prod.mk.inj hmade
      rw [hstep]
      exact .inr ⟨nofun, fun last => ⟨error, rfl⟩⟩
    · rename_i next hstep
      obtain ⟨hdirectory, hshort, rfl⟩ := step_eq_ok_iff.1 hstep
      rw [step_eq_ok_iff.2 ⟨hopens.widens.keepsDirectories names hdirectory, hshort, rfl⟩]
      split at hmade
      · rename_i hnone
        obtain ⟨name, rfl⟩ := htree.exists_named hdirectory (ne_directory_of_none hnone)
        exact ih (opens_put htree hdirectory hnone).tree hmade
      · exact ih htree hmade

theorem directory_of_foldlM {components : List Component} {found : List String}
    (hwalk : components.foldlM disk.step names = .ok found)
    (hfound : disk.lookup? found = some .directory) : disk.lookup? names = some .directory := by
  cases components with
  | nil => exact Except.ok.inj hwalk ▸ hfound
  | cons component rest =>
    rw [List.foldlM_cons] at hwalk
    obtain ⟨next, hstep, -⟩ := exists_of_bind_eq_ok hwalk
    exact (step_eq_ok_iff.1 hstep).1

/-- Where a path can be followed to a directory nothing is made. -/
theorem makeAlong_append {first : List Component} (rest : List Component) {found : List String}
    (hwalk : first.foldlM disk.step names = .ok found)
    (hfound : disk.lookup? found = some .directory) :
    disk.makeAlong names (first ++ rest) = disk.makeAlong found rest := by
  induction first generalizing names with
  | nil =>
    obtain rfl := Except.ok.inj hwalk
    rfl
  | cons component others ih =>
    rw [List.foldlM_cons] at hwalk
    obtain ⟨next, hstep, hothers⟩ := exists_of_bind_eq_ok hwalk
    rw [List.cons_append, makeAlong, hstep]
    simp only [directory_of_foldlM hothers hfound]
    exact ih hothers

/-- Directories can be made in a directory by names that are not too long, where nothing is yet. -/
theorem makeAlong_fresh (hnames : disk.lookup? names = some .directory) {row : List String}
    (hshort : ∀ name ∈ row, Text.size name ≤ longestName)
    (hnone : ∀ first, first ≠ [] → first <+: row → disk.lookup? (names ++ first) = none) :
    ∃ made, disk.makeAlong names (row.map Component.named) = (made, none) := by
  induction row generalizing disk names with
  | nil =>
    rw [List.map_nil, makeAlong, hnames]
    exact ⟨disk, rfl⟩
  | cons name row ih =>
    have hstep : disk.step names (.named name) = .ok (names ++ [name]) :=
      step_eq_ok_iff.2 ⟨hnames, fun _ h => by
        cases h
        exact hshort name List.mem_cons_self, rfl⟩
    have hfirst := hnone [name] (List.cons_ne_nil _ _) (List.prefix_append [name] row)
    rw [List.map_cons, makeAlong, hstep]
    simp only [hfirst]
    have hne : names ++ [name] ≠ [] := List.append_ne_nil_of_right_ne_nil _ (List.cons_ne_nil _ _)
    have hput := lookup?_put disk hne .directory
    refine ih (by rw [hput, if_pos rfl])
      (fun other hother => hshort other (List.mem_cons_of_mem _ hother))
      fun first hne hbegins => ?_
    rw [hput, if_neg (by simpa using hne), List.append_assoc]
    exact hnone ([name] ++ first) (List.cons_ne_nil _ _) (List.cons_prefix_cons.2 ⟨rfl, hbegins⟩)

/-- Where directories were made along a path through a place that was free, there is one now. -/
theorem directory_of_makeAlong (htree : disk.IsTree)
    (hnames : disk.lookup? names = some .directory) {name : String}
    (hshort : Text.size name ≤ longestName) (hnone : disk.lookup? (names ++ [name]) = none)
    (rest : List Component) :
    lookup? (disk.makeAlong names (.named name :: rest)).1 (names ++ [name]) = some .directory := by
  have hstep : disk.step names (.named name) = .ok (names ++ [name]) :=
    step_eq_ok_iff.2 ⟨hnames, fun _ h => by cases h; exact hshort, rfl⟩
  rw [makeAlong, hstep]
  simp only [hnone]
  have hput := opens_put htree hnames hnone
  refine (opens_makeAlong hput.tree _ rest).widens.keepsDirectories _ ?_
  rw [lookup?_put disk (ne_nil_of_ne_directory (ne_directory_of_none hnone)), if_pos rfl]

end CodeGraph.Disk
