import CodeGraph.Proofs.Transaction.Base
import CodeGraph.Transaction.Follow

/-!
# Following the disk while others commit

The change that brings a file in line with the disk is planned in one snapshot and made in a later
workspace. When the file came, went or was edited meanwhile, validation refuses the plan, but for one
case: text that was put right behind the last byte of the snapshot is no part of the range that the
plan replaces, so the plan is accepted and that text stays behind the new content.
-/

namespace CodeGraph

namespace Text

theorem eq_empty_of_size {text : String} (hsize : size text = 0) : text = "" := by
  refine bytes_inj.1 (List.length_eq_zero_iff.1 ?_)
  rw [length_bytes, hsize]

/-- The beginning of a text is known by its bytes. -/
theorem eq_of_take_bytes {old head tail : String} (hsize : size head = size old)
    (hbytes : (bytes old).take (size old) = (bytes (head ++ tail)).take (size old)) :
    head = old := by
  refine bytes_inj.1 ?_
  rw [bytes_append, ← length_bytes old, List.take_length] at hbytes
  rw [hbytes, List.take_left' (by rw [length_bytes, length_bytes, hsize])]

end Text

theorem Change.checkPath_eq {path : Path} (hnormal : path.IsNormal) (config : Config) :
    checkPath config path = .ok path := by
  rw [checkPath, hnormal.inProject?_eq]

namespace Workspace

variable {workspace : Workspace} {path : Path} {content : Option String}

/-- **Nothing is planned exactly when the file is as it is on disk.** -/
theorem changeToFollow?_eq_none_iff (hnormal : path.IsNormal) :
    workspace.changeToFollow? path content = none ↔ workspace.text? path = content := by
  unfold changeToFollow?
  rw [hnormal.tidy_eq, text?]
  cases workspace.file? path with
  | none => cases content <;> simp
  | some file => cases content <;> simp

/-- What is planned for a file that is not as it is on disk: it is added, removed, or its whole text is
replaced. -/
inductive ChangeToFollow (workspace : Workspace) (path : Path) : Option String → Change → Prop
  | add (text : String) : ChangeToFollow workspace path (some text) (.add path text)
  | remove : ChangeToFollow workspace path none (.remove path)
  | edit {old : String} (hold : workspace.text? path = some old) (text : String) :
    ChangeToFollow workspace path (some text)
      (.edit path ⟨0, Text.size old⟩ text (some workspace.sequence))

theorem changeToFollow_of_eq_some (hnormal : path.IsNormal) {change : Change}
    (hplan : workspace.changeToFollow? path content = some change) :
    workspace.ChangeToFollow path content change := by
  unfold changeToFollow? at hplan
  rw [hnormal.tidy_eq] at hplan
  cases hfile : workspace.file? path with
  | none =>
    rw [hfile] at hplan
    cases content with
    | none => cases hplan
    | some text => exact Option.some.inj hplan ▸ .add text
  | some file =>
    rw [hfile] at hplan
    cases content with
    | none => exact Option.some.inj hplan ▸ .remove
    | some text =>
      dsimp only at hplan
      split at hplan
      · cases hplan
      · exact Option.some.inj hplan ▸ .edit (by rw [text?, hfile, Option.map_some]) text

end Workspace

namespace Store

variable {environment : Environment} {earlier : List Store} {current seen next : Store} {path : Path}

/-- An edit of a whole file that was seen in a snapshot replaces all of that text, and whatever
follows it by now stays. -/
theorem Run.exists_tail (hrun : Run environment earlier current) (hseen : seen ∈ current :: earlier)
    (hnormal : path.IsNormal) {old text : String} (hold : seen.workspace.text? path = some old)
    {queuedAt : Nat} {commit : Commit}
    (hcommitted : current.process environment queuedAt
      (.edit path ⟨0, Text.size old⟩ text (some seen.workspace.sequence)) =
        (next, .committed commit)) :
    ∃ tail, current.workspace.text? path = some (old ++ tail) ∧
      next.workspace.text? path = some (text ++ tail) := by
  obtain ⟨checked, hvalid, hupdates⟩ :=
    (hrun.reachable current List.mem_cons_self).updates hcommitted
  obtain ⟨target, file, htarget, rfl, hfile, -, -, -, hreads⟩ := hrun.reads_of_validate hvalid
  obtain rfl := Option.some.inj ((hnormal.inProject?_eq _).symm.trans htarget)
  obtain ⟨same, hsame, -, hbytes⟩ := hreads seen hseen rfl
  obtain rfl := Option.some.inj (hold.symm.trans hsame)
  obtain ⟨⟨head, removed, tail, hnow, hhead, hremoved, hnext⟩, -⟩ := hupdates
  obtain rfl := Text.eq_empty_of_size hhead
  have htext : file.text = removed ++ tail := by
    rw [Workspace.text?, hfile, Option.map_some, Option.some.injEq] at hnow
    rw [hnow, String.empty_append]
  rw [htext] at hbytes
  obtain rfl := Text.eq_of_take_bytes ((Nat.zero_add _).symm.trans hremoved) hbytes
  exact ⟨tail, by rw [hnow, String.empty_append], by rw [hnext, String.empty_append]⟩

/-- **A plan brings the file in line with the disk, but for what was appended meanwhile.** When
nothing is planned, the snapshot has the content of the disk. A plan that is committed after any number
of other transactions leaves that content, and behind it at most the text that the file had gained
behind everything that the snapshot showed. -/
theorem plan_follows (hrun : Run environment earlier current) (hseen : seen ∈ current :: earlier)
    (hnormal : path.IsNormal) (content : Option String) :
    (seen.workspace.changeToFollow? path content = none →
      seen.workspace.text? path = content) ∧
    ∀ change, seen.workspace.changeToFollow? path content = some change →
      ∀ queuedAt next commit,
        current.process environment queuedAt change = (next, .committed commit) →
        ∃ tail, next.workspace.text? path = content.map (· ++ tail) ∧
          (tail = "" ∨ ∃ old, seen.workspace.text? path = some old ∧
            current.workspace.text? path = some (old ++ tail)) := by
  refine ⟨(Workspace.changeToFollow?_eq_none_iff hnormal).1,
    fun change hplan queuedAt next commit hcommitted => ?_⟩
  obtain ⟨checked, hvalid, hupdates⟩ :=
    (hrun.reachable current List.mem_cons_self).updates hcommitted
  cases Workspace.changeToFollow_of_eq_some hnormal hplan with
  | add text =>
    obtain ⟨target, htarget, hrest⟩ := exists_of_bind_eq_ok hvalid
    obtain rfl := Except.ok.inj ((Change.checkPath_eq hnormal _).symm.trans htarget)
    obtain ⟨⟨⟩, -, hrest⟩ := exists_of_bind_eq_ok hrest
    obtain ⟨⟨⟩, -, hrest⟩ := exists_of_bind_eq_ok hrest
    obtain rfl := Except.ok.inj hrest
    exact ⟨"", by rw [hupdates.2.1, Option.map_some, String.append_empty], .inl rfl⟩
  | remove =>
    obtain ⟨target, htarget, hrest⟩ := exists_of_bind_eq_ok hvalid
    obtain rfl := Except.ok.inj ((Change.checkPath_eq hnormal _).symm.trans htarget)
    obtain ⟨-, -, hrest⟩ := exists_of_bind_eq_ok hrest
    obtain rfl := Except.ok.inj hrest
    exact ⟨"", hupdates.2.1, .inl rfl⟩
  | edit hold text =>
    obtain ⟨tail, hnow, hnext⟩ := hrun.exists_tail hseen hnormal hold hcommitted
    exact ⟨tail, hnext, .inr ⟨_, hold, hnow⟩⟩

theorem plan_follows_changed :
    let environment : Environment := ⟨{}, fun _ _ => default⟩
    let seen := (process environment {} 0 (.add ⟨"a.py"⟩ "x = 1\n")).1
    let current := (process environment seen 1 (.add ⟨"b.py"⟩ "y = 2\n")).1
    ∃ change, seen.workspace.changeToFollow? ⟨"a.py"⟩ (some "x = 3\n") = some change ∧
      ∃ next commit, process environment current 2 change = (next, .committed commit) ∧
        next.workspace.text? ⟨"a.py"⟩ = some "x = 3\n" := by
  intro environment seen current
  have hrun : Run environment [seen, {}] current :=
    .step (.step (.empty {}) (.process 0 _)) (.process 1 _)
  have hplan : seen.workspace.changeToFollow? ⟨"a.py"⟩ (some "x = 3\n") =
      some (.edit ⟨"a.py"⟩ ⟨0, 6⟩ "x = 3\n" (some 1)) := by decide +kernel
  have hcommit : (process environment current 2
      (.edit ⟨"a.py"⟩ ⟨0, 6⟩ "x = 3\n" (some 1))).2 = .committed ⟨3, [], 0⟩ := by decide +kernel
  refine ⟨_, hplan, ?_⟩
  generalize hresult : process environment current 2
    (.edit ⟨"a.py"⟩ ⟨0, 6⟩ "x = 3\n" (some 1)) = result at hcommit
  obtain ⟨next, _⟩ := result
  cases hcommit
  have hnormal : Path.IsNormal ⟨"a.py"⟩ :=
    Path.isNormal_of_inProject? (by decide : Path.inProject? ⟨""⟩ ⟨"a.py"⟩ = some ⟨"a.py"⟩)
  obtain ⟨-, hfollows⟩ := plan_follows hrun (List.mem_cons_of_mem _ List.mem_cons_self)
    hnormal (some "x = 3\n")
  obtain ⟨tail, hnext, htail⟩ := hfollows _ hplan 2 next _ hresult
  refine ⟨next, _, rfl, ?_⟩
  obtain rfl | ⟨old, hold, hnow⟩ := htail
  · exact hnext
  · have hseen : seen.workspace.text? ⟨"a.py"⟩ = some "x = 1\n" := by decide +kernel
    have hcurrent : current.workspace.text? ⟨"a.py"⟩ = some "x = 1\n" := by decide +kernel
    obtain rfl := Option.some.inj (hseen.symm.trans hold)
    have happend : "x = 1\n" ++ "" = "x = 1\n" ++ tail := Option.some.inj (hcurrent.symm.trans hnow)
    obtain rfl := (String.append_right_inj "x = 1\n").1 happend
    exact hnext

/-- Text that is appended between the plan and its commit is not replaced, although the file on disk
does not have it. -/
theorem plan_leaves_appended :
    let environment : Environment := ⟨{}, fun _ _ => default⟩
    let seen := (process environment {} 0 (.add ⟨"a.py"⟩ "x = 1\n")).1
    let current := (process environment seen 1 (.edit ⟨"a.py"⟩ ⟨6, 6⟩ "y = 2\n" none)).1
    let plan : Change := .edit ⟨"a.py"⟩ ⟨0, 6⟩ "x = 3\n" (some 1)
    Run environment [seen, {}] current ∧
      seen.workspace.changeToFollow? ⟨"a.py"⟩ (some "x = 3\n") = some plan ∧
      (process environment current 2 plan).2.isCommitted ∧
      (process environment current 2 plan).1.workspace.text? ⟨"a.py"⟩ =
        some "x = 3\ny = 2\n" :=
  ⟨.step (.step (.empty {}) (.process 0 _)) (.process 1 _), by decide +kernel, by decide +kernel,
    by decide +kernel⟩

end Store

end CodeGraph
