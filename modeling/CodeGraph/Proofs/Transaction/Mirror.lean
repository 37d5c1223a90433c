import CodeGraph.Proofs.Transaction.Follow
import CodeGraph.Proofs.Transaction.Queue
import CodeGraph.Proofs.Workspace.Written

/-!
# The disk follows the workspace

When the disk is to follow, it holds the texts of the workspace after every run of transactions that
began so, and no file where a transaction took one away. This rests on what is done when a change
fails on disk: all that was touched is put back, and the workspace stays as it was. A file that
moves below its own path to a name that is too long for a disk is the one case in which that does
not succeed.
-/

namespace CodeGraph

/-! ### Names of Python files -/

namespace Path

variable {stem : List Char}

theorem splitName_py (hstem : stem ≠ []) :
    splitName (String.ofList (stem ++ ['.', 'p', 'y'])) = (String.ofList stem, some "py") := by
  have hempty : String.ofList stem ≠ "" := by simpa using hstem
  simp [splitName, Text.splitLast?, hempty]

theorem isName_py (hstem : stem ≠ []) (hslash : '/' ∉ stem) :
    IsName (String.ofList (stem ++ ['.', 'p', 'y'])) := by
  have hlong : 3 < (stem ++ ['.', 'p', 'y']).length := by
    have := List.length_pos_iff.2 hstem
    simp
    omega
  have hne : ∀ text : String, text.toList.length ≤ 3 →
      String.ofList (stem ++ ['.', 'p', 'y']) ≠ text := by
    rintro text hlength rfl
    rw [String.toList_ofList] at hlength
    omega
  refine ⟨hne _ (by decide), hne _ (by decide), hne _ (by decide), ?_⟩
  rw [String.toList_ofList]
  simpa using hslash

end Path

theorem Language.isSupported_py {names : List String} {stem : List Char} (hstem : stem ≠ [])
    (hall : ∀ name ∈ names ++ [String.ofList (stem ++ ['.', 'p', 'y'])], Path.IsName name) :
    (ofPath (Path.ofNames (names ++ [String.ofList (stem ++ ['.', 'p', 'y'])]))).isSupported =
      true := by
  rw [ofPath, Path.extension?, Path.fileName?_ofNames hall, Option.bind_some,
    Path.splitName_py hstem]
  exact (by decide : ((all.find? ("py" ∈ ·.extensions)).getD other).isSupported = true)

/-! ### Changes -/

namespace Change

variable {environment : Environment} {workspace : Workspace} {pass : Pass}

/-- The path that a change takes a file away from. -/
def leaves? (root : Path) : Change → Option Path
  | edit .. => none
  | add .. => none
  | remove path => Path.inProject? root path
  | rename source _ => Path.inProject? root source

/-- Whether a change moves a file below its own path to a name that is too long for a disk. -/
def overreaches (root : Path) : Change → Bool
  | edit .. => false
  | add .. => false
  | remove _ => false
  | rename source target =>
    match Path.inProject? root source, Path.inProject? root target with
    | some source, some target => Disk.overreaches root source target
    | _, _ => false

/-- What a change notes for the disk while it turns one workspace into another. -/
structure Noted (before : Workspace) (change : Change) (changes : List DiskChange)
    (after : Workspace) : Prop where
  planned : Disk.Planned before.text? changes
  texts : after.text? = changes.foldl DiskChange.alter before.text?
  removes : ∀ path, (change = remove path ∨ ∃ target, change = rename path target) →
    DiskChange.remove path ∈ changes
  moves : ∀ source target, change = rename source target ↔
    ∃ text rest, changes = .remove source :: .write target text :: rest

theorem noted_of_writes {change : Change} {changes : List DiskChange}
    (hwrites : (Pass.ofWorkspace workspace).Writes pass changes)
    (hplanned : Disk.Planned workspace.text? changes)
    (hremoves : ∀ path, (change = remove path ∨ ∃ target, change = rename path target) →
      DiskChange.remove path ∈ changes)
    (hmoves : ∀ source target, change = rename source target ↔
      ∃ text rest, changes = .remove source :: .write target text :: rest) :
    Noted workspace change pass.disk pass.workspace := by
  obtain rfl : pass.disk = changes := hwrites.disk
  exact ⟨hplanned, hwrites.texts, hremoves, hmoves⟩

/-- **A change notes for the disk what it does to the texts.** -/
theorem noted_steps (hordered : Workspace.Ordered workspace.files) {change : Change}
    (hadmitted : change.Admitted workspace)
    (hsteps : change.steps environment (Pass.ofWorkspace workspace) = .ok pass) :
    Noted workspace change pass.disk pass.workspace := by
  have hstart : Workspace.Ordered (Pass.ofWorkspace workspace).workspace.files := hordered
  cases takes_of_steps hsteps with
  | edit hfile _ happly =>
    obtain ⟨hmem, rfl⟩ := Workspace.file?_mem hfile
    have hnormal := hordered.normal _ hmem
    exact noted_of_writes (Pass.writes_applyText hstart hnormal happly) (.write hnormal) (by simp)
      (by simp)
  | add happly =>
    exact noted_of_writes (Pass.writes_applyText hstart hadmitted.1 happly) (.write hadmitted.1)
      (by simp) (by simp)
  | remove hremove =>
    obtain ⟨hheld, hwrites⟩ := Pass.writes_remove hstart hremove
    exact noted_of_writes hwrites (.remove hheld) (by simp) (by simp)
  | rename hrename =>
    obtain ⟨text, changes, hheld, hwrites, hchanges⟩ :=
      Pass.exists_writes_rename hstart hadmitted.2.1 hrename
    exact noted_of_writes hwrites (.move hheld hadmitted.2.1 hchanges) (by simp) (by simp)

/-- **An accepted change runs to its end and notes what it does.** -/
theorem exists_noted_run (hsound : workspace.Sound environment) {change : Change}
    (hadmitted : change.Admitted workspace) :
    ∃ outcome, change.run environment workspace = .ok outcome ∧
      Noted workspace change outcome.disk outcome.workspace := by
  obtain ⟨pass, hsteps, hstepped⟩ := exists_steps hsound hadmitted
  obtain ⟨outcome, hconverge, hconverged⟩ := Pass.exists_converge hstepped.stands
  have hnoted := noted_steps hsound.ordered hadmitted hsteps
  have htexts : outcome.workspace.text? = pass.workspace.text? := by
    funext path
    rw [Workspace.text?, Workspace.file?, hconverged.files, Workspace.text?, Workspace.file?]
  refine ⟨outcome, ?_, hconverged.disk ▸ hnoted.planned, ?_, ?_, ?_⟩
  · rw [run, hsteps]
    exact hconverge
  · rw [htexts, hnoted.texts, hconverged.disk]
  · exact hconverged.disk ▸ hnoted.removes
  · exact hconverged.disk ▸ hnoted.moves

/-- What validation makes of a change: its paths are led into the project. -/
inductive Enters (root : Path) : Change → Change → Prop
  | edit {path found : Path} (range : ByteRange) (text : String) (base : Option Nat)
    (hfound : Path.inProject? root path = some found) :
    Enters root (edit path range text base) (edit found range text base)
  | add {path found : Path} (content : String) (hfound : Path.inProject? root path = some found) :
    Enters root (add path content) (add found content)
  | remove {path found : Path} (hfound : Path.inProject? root path = some found) :
    Enters root (remove path) (remove found)
  | rename {source found target sought : Path} (hfound : Path.inProject? root source = some found)
    (hsought : Path.inProject? root target = some sought) :
    Enters root (rename source target) (rename found sought)

theorem enters_of_validate {config : Config} {queuedAt : Nat} {change checked : Change}
    (hvalid : change.validate config workspace queuedAt = .ok checked) :
    Enters config.root change checked := by
  cases change with
  | edit path range text base =>
    obtain ⟨found, hfound, hrest⟩ := exists_of_bind_eq_ok hvalid
    obtain ⟨file, -, hrest⟩ := exists_of_bind_eq_ok hrest
    obtain ⟨⟨⟩, -, hrest⟩ := exists_of_bind_eq_ok hrest
    obtain ⟨⟨⟩, -, hrest⟩ := exists_of_bind_eq_ok hrest
    obtain rfl := Except.ok.inj hrest
    exact .edit range text base (inProject?_of_checkPath hfound)
  | add path content =>
    obtain ⟨found, hfound, hrest⟩ := exists_of_bind_eq_ok hvalid
    obtain ⟨⟨⟩, -, hrest⟩ := exists_of_bind_eq_ok hrest
    obtain ⟨⟨⟩, -, hrest⟩ := exists_of_bind_eq_ok hrest
    obtain rfl := Except.ok.inj hrest
    exact .add content (inProject?_of_checkPath hfound)
  | remove path =>
    obtain ⟨found, hfound, hrest⟩ := exists_of_bind_eq_ok hvalid
    obtain ⟨file, -, hrest⟩ := exists_of_bind_eq_ok hrest
    obtain rfl := Except.ok.inj hrest
    exact .remove (inProject?_of_checkPath hfound)
  | rename source target =>
    obtain ⟨found, hfound, hrest⟩ := exists_of_bind_eq_ok hvalid
    obtain ⟨sought, hsought, hrest⟩ := exists_of_bind_eq_ok hrest
    obtain ⟨file, -, hrest⟩ := exists_of_bind_eq_ok hrest
    obtain ⟨⟨⟩, -, hrest⟩ := exists_of_bind_eq_ok hrest
    obtain ⟨⟨⟩, -, hrest⟩ := exists_of_bind_eq_ok hrest
    obtain rfl := Except.ok.inj hrest
    exact .rename (inProject?_of_checkPath hfound) (inProject?_of_checkPath hsought)

theorem validate_rename (config : Config) {source target : Path}
    (hsource : source.IsNormal) (htarget : target.IsNormal)
    (hheld : workspace.contains source = true) (hfree : workspace.contains target = false)
    (hsupported : (Language.ofPath target).isSupported) (queuedAt : Nat) :
    (rename source target).validate config workspace queuedAt = .ok (rename source target) := by
  obtain ⟨file, hfile⟩ := Option.isSome_iff_exists.1 hheld
  have hpresent : checkPresent workspace source = .ok file := by rw [checkPresent, hfile]
  have habsent : checkAbsent workspace target = .ok () := by rw [checkAbsent, hfree]; rfl
  have hkind : checkSupported target = .ok () := by rw [checkSupported, if_pos hsupported]
  simp only [validate, checkPath_eq hsource, checkPath_eq htarget, hpresent, habsent, hkind,
    ok_bind]
  rfl

/-- A change takes a file away from where it was asked to. -/
theorem Enters.leaves? {root path : Path} {change checked : Change}
    (henters : Enters root change checked) (hleaves : change.leaves? root = some path) :
    checked = .remove path ∨ ∃ target, checked = .rename path target := by
  cases henters with
  | edit => cases hleaves
  | add => cases hleaves
  | remove hfound =>
    obtain rfl := Option.some.inj (hfound.symm.trans hleaves)
    exact .inl rfl
  | rename hfound hsought =>
    obtain rfl := Option.some.inj (hfound.symm.trans hleaves)
    exact .inr ⟨_, rfl⟩

theorem Enters.overreaches {root source target : Path} {change : Change}
    (henters : Enters root change (.rename source target)) :
    change.overreaches root = Disk.overreaches root source target := by
  cases henters with
  | rename hfound hsought => rw [Change.overreaches, hfound, hsought]

end Change

/-! ### Runs of transactions -/

namespace Store

variable {environment : Environment} {store : Store} {gone : Path → Prop}

/-- Where the disk holds the text of every file of the workspace. -/
def Mirrored (root : Path) (store : Store) : Prop :=
  ∀ path text, store.workspace.text? path = some text →
    store.disk.read (root.join path.text) = .ok text.toUTF8

theorem mirrors_empty (root : Path) :
    Disk.Mirrors root ({} : Store).workspace.text? (fun _ => False) ({} : Store).disk :=
  ⟨Disk.isTree_empty, nofun, nofun⟩

/-- **A transaction leaves a disk that mirrors the workspace as one that does.** -/
theorem mirrors_process (hsound : store.workspace.Sound environment)
    (hfollows : environment.config.writeThrough = true)
    (hmirrors : Disk.Mirrors environment.config.root store.workspace.text? gone store.disk)
    (queuedAt : Nat) {change : Change}
    (hreach : change.overreaches environment.config.root = false) {next : Store}
    {result : TransactionResult}
    (hprocess : store.process environment queuedAt change = (next, result)) :
    Disk.Mirrors environment.config.root next.workspace.text? (fun path => gone path ∨
      result.isCommitted ∧ change.leaves? environment.config.root = some path) next.disk := by
  rw [process] at hprocess
  split at hprocess
  · obtain ⟨rfl, rfl⟩ := Prod.mk.inj hprocess
    exact hmirrors.mono fun path hpath =>
      hpath.resolve_right (by simp [TransactionResult.isCommitted])
  · rename_i checked hvalid
    have henters := Change.enters_of_validate hvalid
    obtain ⟨outcome, hrun, hnoted⟩ :=
      Change.exists_noted_run hsound (Change.admitted_of_validate hvalid)
    rw [apply, hrun] at hprocess
    simp only [hfollows, if_true] at hprocess
    split at hprocess
    · rename_i disk error hfailed
      obtain ⟨rfl, rfl⟩ := Prod.mk.inj hprocess
      refine (hmirrors.makeChanges_failed hnoted.planned
        (fun source target text rest hshape => ?_) hfailed).mono fun path hpath =>
          hpath.resolve_right (by simp [TransactionResult.isCommitted])
      obtain rfl := (hnoted.moves source target).2 ⟨text, rest, hshape⟩
      exact henters.overreaches ▸ hreach
    · rename_i disk hmade
      obtain ⟨rfl, rfl⟩ := Prod.mk.inj hprocess
      have hmade := hmirrors.makeChanges hnoted.planned hmade
      rw [← hnoted.texts] at hmade
      exact hmade.mono fun path hpath => hpath.imp_right fun hleft =>
        hnoted.removes path (henters.leaves? hleft.2)

/-- **A move that reaches too far is refused, and its file is lost on disk.** -/
theorem exists_process_overreaching (hsound : store.workspace.Sound environment)
    (hfollows : environment.config.writeThrough = true)
    (hmirrors : Disk.Mirrors environment.config.root store.workspace.text? gone store.disk)
    {queuedAt : Nat} {change : Change} {source target : Path}
    (hvalid : change.validate environment.config store.workspace queuedAt =
      .ok (.rename source target))
    (hreach : change.overreaches environment.config.root = true) :
    ∃ disk error, store.process environment queuedAt change =
        (⟨store.workspace, disk⟩, .rejected (.disk error)) ∧
      disk.read (environment.config.root.join source.text) = .error .isDirectory := by
  have hadmitted := Change.admitted_of_validate hvalid
  obtain ⟨⟨file, hfile⟩, hnormal, -⟩ := id hadmitted
  obtain ⟨outcome, hrun, hnoted⟩ := Change.exists_noted_run hsound hadmitted
  obtain ⟨text, rest, hshape⟩ := (hnoted.moves source target).1 rfl
  rw [(Change.enters_of_validate hvalid).overreaches] at hreach
  obtain ⟨disk, error, hfailed, hread⟩ := hmirrors.makeChanges_overreaching
    (by rw [Workspace.text?, hfile]; exact Option.some_ne_none _) hnormal hreach text rest
  refine ⟨disk, error, ?_, hread⟩
  rw [process, hvalid]
  simp only [apply, hrun, hfollows, if_true, hshape, hfailed]

/-- **A file that is to move below its own path to a long name is lost on disk**, while the
workspace keeps it, since the move is refused. -/
theorem exists_process_below (hsound : store.workspace.Sound environment)
    (hfollows : environment.config.writeThrough = true)
    (hmirrors : Disk.Mirrors environment.config.root store.workspace.text? gone store.disk)
    {names : List String} {name : String} (hnames : names ≠ [])
    (hall : ∀ part ∈ names ++ [name], Path.IsName part)
    (husable : Disk.isUsable (environment.config.root.join
      (Path.ofNames (names ++ [name])).text) = true)
    (hlong : Disk.longestName < Text.size name)
    (hsupported : (Language.ofPath (Path.ofNames (names ++ [name]))).isSupported)
    (hheld : store.workspace.contains (Path.ofNames names) = true)
    (hfree : store.workspace.contains (Path.ofNames (names ++ [name])) = false) (queuedAt : Nat) :
    ∃ disk error, store.process environment queuedAt
        (.rename (Path.ofNames names) (Path.ofNames (names ++ [name]))) =
        (⟨store.workspace, disk⟩, .rejected (.disk error)) ∧
      disk.read (environment.config.root.join (Path.ofNames names).text) =
        .error .isDirectory := by
  have hsource : (Path.ofNames names).IsNormal := Path.isNormal_ofNames hnames fun part hpart =>
    hall part (List.mem_append_left _ hpart)
  have htarget : (Path.ofNames (names ++ [name])).IsNormal := Path.isNormal_ofNames (by simp) hall
  have hvalid := Change.validate_rename environment.config hsource htarget hheld hfree hsupported
    queuedAt
  refine exists_process_overreaching hsound hfollows hmirrors hvalid ?_
  rw [(Change.enters_of_validate hvalid).overreaches]
  exact Disk.overreaches_below hall husable hlong

/-- Whether a transaction of a run that was committed took the file at a path away. -/
def Left (environment : Environment) (store : Store) (order : List Pending) (path : Path) : Prop :=
  ∃ earlier pending later, order = earlier ++ pending :: later ∧
    ((store.afterAll environment earlier).processPending environment pending).2.isCommitted ∧
    pending.transaction.change.leaves? environment.config.root = some path

theorem left_cons {pending : Pending} {rest : List Pending} {path : Path}
    (hleft : store.Left environment (pending :: rest) path) :
    (store.processPending environment pending).2.isCommitted ∧
        pending.transaction.change.leaves? environment.config.root = some path ∨
      (store.processPending environment pending).1.Left environment rest path := by
  obtain ⟨earlier, taken, later, horder, hcommitted, hleaves⟩ := hleft
  cases earlier with
  | nil =>
    obtain ⟨rfl, -⟩ := List.cons.inj horder
    exact .inl ⟨hcommitted, hleaves⟩
  | cons first earlier =>
    obtain ⟨rfl, hrest⟩ := List.cons.inj horder
    exact .inr ⟨earlier, taken, later, hrest, hcommitted, hleaves⟩

/-- **A run leaves a disk that mirrors the workspace as one that does.** -/
theorem mirrors_afterAll (hkept : store.Kept environment)
    (hfollows : environment.config.writeThrough = true)
    (hmirrors : Disk.Mirrors environment.config.root store.workspace.text? gone store.disk)
    {order : List Pending} (hreach : ∀ pending ∈ order,
      pending.transaction.change.overreaches environment.config.root = false) :
    Disk.Mirrors environment.config.root (store.afterAll environment order).workspace.text?
      (fun path => gone path ∨ store.Left environment order path)
      (store.afterAll environment order).disk := by
  induction order generalizing store gone with
  | nil =>
    refine hmirrors.mono fun path hpath => hpath.resolve_right ?_
    rintro ⟨earlier, pending, later, horder, -⟩
    exact absurd horder (by simp)
  | cons pending rest ih =>
    have hnext := mirrors_process hkept.sound hfollows hmirrors pending.queuedAt
      (hreach pending List.mem_cons_self) rfl
    refine (ih (kept_process hkept pending.queuedAt pending.transaction.change) hnext
      fun other hother => hreach other (List.mem_cons_of_mem _ hother)).mono fun path hpath => ?_
    obtain hgone | hleft := hpath
    · exact .inl (.inl hgone)
    · exact (left_cons hleft).imp_left .inr

/-- **The disk follows the workspace.** When it held every text of the workspace before a run of
transactions, it does so after it, and where a committed transaction took a file away there is none
but those that came back. No file of the run may move below its own path to a name that is too long
for a disk. -/
theorem mirrored_afterAll (hreachable : store.Reachable environment)
    (hfollows : environment.config.writeThrough = true) (htree : store.disk.IsTree)
    (hmirrored : store.Mirrored environment.config.root) (order : List Pending)
    (hreach : ∀ pending ∈ order,
      pending.transaction.change.overreaches environment.config.root = false) :
    (store.afterAll environment order).disk.IsTree ∧
      (store.afterAll environment order).Mirrored environment.config.root ∧
      ∀ path, store.Left environment order path →
        (store.afterAll environment order).disk.isFile
          (environment.config.root.join path.text) = true →
        (store.afterAll environment order).workspace.contains path = true := by
  have hordered := hreachable.kept.sound.ordered
  have hmirrors : Disk.Mirrors environment.config.root store.workspace.text? (fun _ => False)
      store.disk := by
    refine ⟨htree, fun path text htext => ⟨?_, hmirrored path text htext⟩, nofun⟩
    obtain ⟨file, hfile, rfl, -⟩ := hordered.text?_iff.1 htext
    exact hordered.normal file hfile
  have hafter := mirrors_afterAll hreachable.kept hfollows hmirrors hreach
  refine ⟨hafter.tree, fun path text htext => (hafter.held path text htext).2,
    fun path hleft hfile => ?_⟩
  obtain ⟨content, hcontent⟩ := Disk.exists_file_of_isFile hfile
  have htext := (hafter.cleared path (.inr hleft)).2 content hcontent
  rw [Workspace.text?] at htext
  rw [Workspace.contains]
  exact Option.isSome_iff_ne_none.2 fun hnone => htext (by rw [hnone]; rfl)

/-- A file moves below its own path, so that a directory takes its place. -/
theorem mirrored_afterAll_below :
    let environment : Environment := ⟨{ writeThrough := true }, fun _ _ => default⟩
    let root := environment.config.root
    let order : List Pending := [⟨1, { change := .add ⟨"a.py"⟩ "x = 1\n" }, 0⟩,
      ⟨2, { change := .rename ⟨"a.py"⟩ ⟨"a.py/b.py"⟩ }, 1⟩]
    let after := ({} : Store).afterAll environment order
    (({} : Store).resultsAll environment order).map (·.isCommitted) = [true, true] ∧
      after.disk.read (root.join "a.py/b.py") = .ok "x = 1\n".toUTF8 ∧
      after.disk.isFile (root.join "a.py") = false := by
  intro environment root order after
  have hreach : ∀ pending ∈ order, pending.transaction.change.overreaches root = false := by
    decide +kernel
  have hcommitted : (({} : Store).resultsAll environment order).map (·.isCommitted) =
      [true, true] := by decide +kernel
  have htext : after.workspace.text? ⟨"a.py/b.py"⟩ = some "x = 1\n" := by decide +kernel
  have hmoved : after.workspace.contains ⟨"a.py"⟩ = false := by decide +kernel
  obtain ⟨-, hmirrored, hleft⟩ := mirrored_afterAll (.empty {}) rfl (mirrors_empty root).tree
    (fun path text hnone => nomatch hnone) order hreach
  refine ⟨hcommitted, hmirrored _ _ htext, Bool.eq_false_iff.2 fun hfile => ?_⟩
  have hleaves : ({} : Store).Left environment order ⟨"a.py"⟩ :=
    ⟨order.take 1, _, [], rfl, by decide +kernel, by decide +kernel⟩
  exact Bool.false_ne_true (hmoved.symm.trans (hleft _ hleaves hfile))

/-- The new name is too long for a disk, but the path is not: the move is refused only after the file
has been removed. -/
theorem move_below_loses_file :
    let environment : Environment := ⟨{ writeThrough := true }, fun _ _ => default⟩
    let root := environment.config.root
    let start : Store := (process environment {} 0 (.add ⟨"a.py"⟩ "x = 1\n")).1
    let name := String.ofList (List.replicate 256 'x' ++ ['.', 'p', 'y'])
    let after := (start.process environment 1
      (.rename ⟨"a.py"⟩ (Path.ofNames ["a.py", name]))).1
    start.Reachable environment ∧ start.disk.IsTree ∧ start.Mirrored root ∧
      after.workspace.text? ⟨"a.py"⟩ = some "x = 1\n" ∧
      after.disk.read (root.join "a.py") = .error .isDirectory ∧ ¬ after.Mirrored root := by
  intro environment root start name after
  have hreachable : start.Reachable environment := .process (.empty {}) 0 _
  have hadded : (Change.add ⟨"a.py"⟩ "x = 1\n").overreaches root = false := rfl
  have hmirrors : Disk.Mirrors root start.workspace.text? _ start.disk :=
    mirrors_process (Workspace.sound_empty environment) rfl (mirrors_empty root) 0 hadded
      Prod.mk.eta.symm
  have htext : start.workspace.text? ⟨"a.py"⟩ = some "x = 1\n" := by decide +kernel
  have hpaths : start.workspace.files.map SourceFile.path = [⟨"a.py"⟩] := by decide +kernel
  have hheld : start.workspace.contains ⟨"a.py"⟩ = true := by decide +kernel
  have hstem : List.replicate 256 'x' ≠ [] := by
    rw [ne_eq, List.replicate_eq_nil_iff]
    decide
  have hslash : '/' ∉ List.replicate 256 'x' := fun hmem =>
    absurd (List.eq_of_mem_replicate hmem) (by decide)
  have hall : ∀ part ∈ ["a.py"] ++ [name], Path.IsName part := by
    simp only [List.singleton_append, List.forall_mem_cons]
    refine ⟨⟨by decide, by decide, by decide, by decide⟩, Path.isName_py hstem hslash, by simp⟩
  have hlong : Disk.longestName < Text.size name := by
    rw [Text.size, String.toList_ofList]
    decide +kernel
  have husable : Disk.isUsable (root.join (Path.ofNames (["a.py"] ++ [name])).text) = true := by
    have hjoin : root.join (Path.ofNames (["a.py"] ++ [name])).text =
        ⟨"." ++ "/" ++ ("a.py" ++ "/" ++ name)⟩ := by
      rw [Path.join, if_neg (Path.head?_toList_ofNames hall), if_neg (by decide)]
      rfl
    rw [hjoin, Disk.isUsable, Text.size]
    simp only [name, String.toList_append, String.toList_ofList]
    decide +kernel
  have hsupported : (Language.ofPath (Path.ofNames (["a.py"] ++ [name]))).isSupported = true :=
    Language.isSupported_py hstem hall
  -- what is known of the store and the name suffices, and both are too large to be evaluated again
  clear_value start name
  have hfree : start.workspace.contains (Path.ofNames (["a.py"] ++ [name])) = false := by
    rw [Bool.eq_false_iff]
    intro hcontains
    obtain ⟨file, hfile⟩ := Option.isSome_iff_exists.1 hcontains
    obtain ⟨hmem, hpath⟩ := Workspace.file?_mem hfile
    have hsame := List.mem_singleton.1 (hpaths ▸ List.mem_map_of_mem hmem)
    have hcomponents := congrArg Path.components (hpath.symm.trans hsame)
    rw [Path.components_ofNames hall] at hcomponents
    have hlength : 2 = (⟨"a.py"⟩ : Path).components.length := congrArg List.length hcomponents
    exact absurd hlength (by decide)
  obtain ⟨disk, error, hprocess, hread⟩ := exists_process_below hreachable.kept.sound rfl hmirrors
    (by simp) hall husable hlong hsupported hheld hfree 1
  have hafter : after = ⟨start.workspace, disk⟩ := congrArg Prod.fst hprocess
  rw [hafter]
  refine ⟨hreachable, hmirrors.tree, fun path text htext => (hmirrors.held path text htext).2,
    htext, hread, fun hmirrored => ?_⟩
  cases hread.symm.trans (hmirrored _ _ htext)

end Store

end CodeGraph
