import CodeGraph.Proofs.Transaction.Evolve
import CodeGraph.Proofs.Transaction.Propagation
import CodeGraph.Proofs.Workspace.Settle

/-!
# What a change spares

The steps of a change note the files that they touch. All other files stay as they are, with the uses
that leave them and with what their imports stand for. They lose what they lead to only when that goes,
and what went never comes back; so what is still there in the end was never lost. Hence a file that a
pass neither binds nor links is as right as it was, as long as it calls for the same.
-/

namespace CodeGraph

namespace Graph

/-- A node that was there already, if it was ever, and is there still. -/
def Lasts (before after : Graph) (id : NodeId) : Prop :=
  id < before.nextId ∧ after.contains id

/-- What is there in the end was there in between. -/
theorem Lasts.between {first second third : Graph} (hfirst : first.Ages second)
    (hsecond : second.Ages third) {id : NodeId} (hlasts : first.Lasts third id) :
    first.Lasts second id ∧ second.Lasts third id := by
  obtain ⟨hold, hlive⟩ := hlasts
  have hlt : id < second.nextId := hold.trans_le hfirst.nextId
  obtain ⟨node, hnode⟩ := contains_iff.1 hlive
  obtain hnew | ⟨found, hfound, -⟩ := hsecond.kept id node hnode
  · exact absurd hlt (Nat.not_lt.2 hnew)
  · exact ⟨⟨hold, contains_of_node? hfound⟩, hlt, hlive⟩

end Graph

namespace Workspace

/-- Files that are touched, and all others spared: what their imports stand for and the uses that leave
them stay, where they lead to a node that lasts. -/
structure Spares (touched : Path → Prop) (before after : Workspace) : Prop where
  ages : before.graph.Ages after.graph
  mem_files : ∀ file : SourceFile, ¬ touched file.path →
    (file ∈ after.files ↔ file ∈ before.files)
  bindings : ∀ file ∈ before.files, ¬ touched file.path → ∀ id ∈ file.imports, ∀ binding,
    before.bindingAt? id = some binding →
    (∀ target, binding = .resolved target → before.graph.Lasts after.graph target) →
    after.bindingAt? id = some binding
  fewer : ∀ file ∈ before.files, ¬ touched file.path → ∀ key, file.Uses key →
    after.graph.hasEdge key → before.graph.hasEdge key
  uses : ∀ file ∈ before.files, ¬ touched file.path → ∀ key, file.Uses key →
    before.graph.Lasts after.graph key.target → before.graph.hasEdge key → after.graph.hasEdge key

variable {touched : Path → Prop}

theorem Spares.refl (workspace : Workspace) : workspace.Spares touched workspace :=
  ⟨.refl _, fun _ _ => Iff.rfl, fun _ _ _ _ _ _ h _ => h, fun _ _ _ _ _ h => h,
    fun _ _ _ _ _ _ h => h⟩

theorem Spares.mono {before after : Workspace} (hspares : before.Spares touched after)
    {touched' : Path → Prop} (hmore : ∀ path, touched path → touched' path) :
    before.Spares touched' after where
  ages := hspares.ages
  mem_files := fun file hnot => hspares.mem_files file (mt (hmore _) hnot)
  bindings := fun file hfile hnot => hspares.bindings file hfile (mt (hmore _) hnot)
  fewer := fun file hfile hnot => hspares.fewer file hfile (mt (hmore _) hnot)
  uses := fun file hfile hnot => hspares.uses file hfile (mt (hmore _) hnot)

theorem Spares.trans {first second third : Workspace} (hfirst : first.Spares touched second)
    (hsecond : second.Spares touched third) : first.Spares touched third where
  ages := hfirst.ages.trans hsecond.ages
  mem_files := fun file hnot => (hsecond.mem_files file hnot).trans (hfirst.mem_files file hnot)
  bindings := by
    intro file hfile hnot id hid binding hbound hlasts
    have hmiddle := (hfirst.mem_files file hnot).2 hfile
    refine hsecond.bindings file hmiddle hnot id hid binding ?_ fun target htarget =>
      ((hlasts target htarget).between hfirst.ages hsecond.ages).2
    exact hfirst.bindings file hfile hnot id hid binding hbound fun target htarget =>
      ((hlasts target htarget).between hfirst.ages hsecond.ages).1
  fewer := fun file hfile hnot key hkey hedge => hfirst.fewer file hfile hnot key hkey
    (hsecond.fewer file ((hfirst.mem_files file hnot).2 hfile) hnot key hkey hedge)
  uses := by
    intro file hfile hnot key hkey hlasts hedge
    obtain ⟨hearlier, hlater⟩ := hlasts.between hfirst.ages hsecond.ages
    exact hsecond.uses file ((hfirst.mem_files file hnot).2 hfile) hnot key hkey hlater
      (hfirst.uses file hfile hnot key hkey hearlier hedge)

variable {environment : Environment} {stale pending : Path → Prop} {before after : Workspace}

/-- What imports and uses can lead to before and after lasts. -/
theorem Stands.lasts (hbefore : before.Stands environment stale pending)
    {stale' pending' : Path → Prop} (hafter : after.Stands environment stale' pending')
    {id : NodeId} (hold : before.IsTarget id) (hnow : after.IsTarget id) :
    before.graph.Lasts after.graph id := by
  obtain ⟨node, hnode, -⟩ := hbefore.exists_target hold
  obtain ⟨found, hfound, -⟩ := hafter.exists_target hnow
  exact ⟨hbefore.graph.lt_nextId hnode, Graph.contains_of_node? hfound⟩

theorem Swapped.not_lasts {path : Path} {put? : Option SourceFile}
    (hswapped : Swapped environment before path put? after) {id : NodeId}
    (hold : id ∈ nodesOf (before.file? path)) (hnew : id ∉ nodesOf put?) :
    ¬ before.graph.Lasts after.graph id := by
  rintro ⟨-, hlive⟩
  obtain ⟨node, hnode⟩ := Graph.contains_iff.1 hlive
  rw [hswapped.replaced.dead id hold hnew] at hnode
  cases hnode

/-- A file that takes the place of another leaves all others alone, but for what led to the nodes that
went. -/
theorem Swapped.spares (hstands : before.Stands environment stale pending) {path : Path}
    {put? : Option SourceFile} (hswapped : Swapped environment before path put? after)
    (hages : before.graph.Ages after.graph) : before.Spares (· = path) after where
  ages := hages
  mem_files := fun file hpath => (hswapped.mem_files file).trans
    ⟨fun h => h.elim (fun hput => absurd (hswapped.brought file hput).path_eq hpath) And.left,
      fun h => .inr ⟨h, hpath⟩⟩
  bindings := by
    intro file hfile hpath id hid binding hbound hlasts
    obtain ⟨node, hnode, hbinding⟩ := Option.bind_eq_some_iff.1 hbound
    obtain ⟨now, hnow, hsurvives⟩ := hswapped.exists_now hstands hfile hpath
      (SourceFile.mem_nodes_of_import hid) hnode
    obtain ⟨kept, rfl, hkept⟩ := hsurvives.exists_rebind hbinding
    rw [bindingAt?, hnow, Option.bind_some, Node.binding?_rebind, hbinding, Option.map_some]
    obtain rfl | ⟨gone, reason, ⟨hold, hnew⟩, rfl, -⟩ := hkept
    · rfl
    · exact absurd (hlasts gone rfl) (hswapped.not_lasts hold hnew)
  fewer := by
    intro file _ _ key hkey hedge
    obtain ⟨put, -, hcalls⟩ | ⟨hold, -⟩ := (hswapped.hasEdge key).1 hedge
    · obtain ⟨_, hkind⟩ := hkey
      obtain ⟨_, _, rfl⟩ | ⟨_, _, _, rfl⟩ | ⟨_, _, rfl⟩ := hcalls <;> simp at hkind
    · exact hold
  uses := by
    intro file hfile hpath key hkey hlasts hedge
    refine (hswapped.hasEdge key).2 (.inr ⟨hedge, ?_, ?_, ?_⟩)
    · rintro ⟨hcontains, -⟩
      have hkind := hkey.2
      simp [hcontains] at hkind
    · rintro ⟨hold, -⟩
      have hsource : key.source ∈ file.nodes := by
        obtain ⟨hsource | hsource, -⟩ := hkey
        · exact hsource ▸ SourceFile.node_mem_nodes
        · exact SourceFile.mem_nodes_of_symbol hsource
      exact hstands.notMem_nodesOf hfile hpath hsource hold
    · exact fun hgone => hswapped.not_lasts hgone.1 hgone.2 hlasts

/-- Nodes that move keep their bindings and their edges. -/
theorem Relocated.spares {file moved : SourceFile} {target : Path}
    (hrelocated : Relocated before file target moved after)
    (hages : before.graph.Ages after.graph) :
    before.Spares (fun path => path = file.path ∨ path = target) after where
  ages := hages
  mem_files := by
    intro other hnot
    rw [not_or] at hnot
    rw [hrelocated.mem_files, or_iff_right, and_iff_left hnot.1]
    rintro rfl
    exact hnot.2 hrelocated.path_eq
  bindings := by
    intro other _ _ id _ binding hbound _
    obtain ⟨node, hnode, hbinding⟩ := Option.bind_eq_some_iff.1 hbound
    obtain ⟨now, hnow, -, hdetail, -⟩ := hrelocated.exists_now hnode
    rw [bindingAt?, hnow, Option.bind_some, Node.binding?, hdetail]
    exact hbinding
  fewer := fun _ _ _ key _ hedge => hrelocated.hasEdge key ▸ hedge
  uses := fun _ _ _ key _ _ hedge => hrelocated.hasEdge key ▸ hedge

end Workspace

namespace Pass

/-! ### The steps of a change -/

/-- A file that is noted to be bound and linked. -/
def Noted (pass : Pass) (path : Path) : Prop :=
  path ∈ pass.bind ∧ path ∈ pass.link

/-- A file that is noted, or that is not there. -/
def Touched (pass : Pass) (path : Path) : Prop :=
  pass.Noted path ∨ pass.workspace.file? path = none

theorem not_touched {pass : Pass} {path : Path} {file : SourceFile}
    (hfile : pass.workspace.file? path = some file) (hnot : ¬ pass.Noted path) :
    ¬ pass.Touched path := by
  rw [Touched, hfile, or_iff_left (Option.some_ne_none file)]
  exact hnot

/-- A pass that notes the files it touches. -/
def Minds (before after : Pass) : Prop :=
  (∀ path, before.Noted path → after.Noted path) ∧
    before.workspace.Spares after.Noted after.workspace

theorem Minds.refl (pass : Pass) : pass.Minds pass :=
  ⟨fun _ h => h, .refl _⟩

theorem Minds.trans {first second third : Pass} (hfirst : first.Minds second)
    (hsecond : second.Minds third) : first.Minds third :=
  ⟨fun path h => hsecond.1 path (hfirst.1 path h), (hfirst.2.mono hsecond.1).trans hsecond.2⟩

variable {environment : Environment} {stale pending : Path → Prop} {pass next : Pass}

theorem Applied.minds (hstands : pass.workspace.Stands environment stale pending) {path : Path}
    {text : String} {file : SourceFile} (happlied : Applied environment pass path text file next)
    (hages : pass.workspace.graph.Ages next.workspace.graph) : pass.Minds next := by
  refine ⟨fun other hother => ?_, (happlied.swapped.spares hstands hages).mono fun other hother => ?_⟩
  · rw [Noted, happlied.bind, happlied.link, PathSet.mem_insert, PathSet.mem_insert]
    exact ⟨.inr hother.1, .inr hother.2⟩
  · rw [Noted, happlied.bind, happlied.link, PathSet.mem_insert, PathSet.mem_insert]
    exact ⟨.inl hother, .inl hother⟩

theorem minds_respell
    (hstands : pass.workspace.Stands environment (fun _ => False) (· ∈ pass.bind))
    {entry : Path × List Replacement} (hrespell : respell environment pass entry = .ok next) :
    pass.Minds next := by
  obtain rfl | ⟨text, edits, put, applied, change, -, hrun, happlied, rfl⟩ :=
    eq_or_applied_of_respell hstands hrespell
  · exact .refl next
  · have hminds : pass.Minds applied := happlied.minds hstands (evolves_applyText hrun).ages
    exact hminds

theorem minds_respellAll
    (hstands : pass.workspace.Stands environment (fun _ => False) (· ∈ pass.bind))
    {entries : List (Path × List Replacement)}
    (hloop : entries.foldlM (respell environment) pass = .ok next) : pass.Minds next := by
  induction entries generalizing pass with
  | nil => exact Except.ok.inj hloop ▸ .refl pass
  | cons entry entries ih =>
    rw [List.foldlM_cons] at hloop
    obtain ⟨middle, hrespell, hrest⟩ := exists_of_bind_eq_ok hloop
    obtain ⟨found, hrun, hrewrites⟩ := exists_respell hstands entry.1 entry.2
    obtain rfl := Except.ok.inj (hrun.symm.trans hrespell)
    exact (minds_respell hstands hrespell).trans (ih hrewrites.stands hrest)

/-- **A rename spares the files that it does not spell anew**, but for the one that moves. -/
theorem spares_rename (hsound : pass.workspace.Sound environment) {source target : Path}
    (htarget : target.IsNormal) (hfree : pass.workspace.file? target = none)
    (hsupported : (Language.ofPath target).isSupported)
    (hrename : pass.rename environment source target = .ok next) :
    pass.workspace.Spares (fun path => path = source ∨ next.Noted path) next.workspace := by
  obtain ⟨file, _, _, hfile, hrelocate, happly, hloop⟩ := rename_cases hrename
  obtain ⟨-, rfl⟩ := Workspace.file?_mem hfile
  obtain ⟨moved, first, put, second, hrunFirst, hrelocated, hrunSecond, happlied,
    ⟨_, _, hstandsFirst⟩, hstandsSecond, -⟩ := exists_taken hsound hfile htarget hfree hsupported
  obtain rfl := Except.ok.inj (hrunFirst.symm.trans hrelocate)
  obtain rfl := Except.ok.inj (hrunSecond.symm.trans happly)
  have happly := happlied.minds hstandsFirst (evolves_applyText hrunSecond).ages
  let noted := second.noteMove file.path target file.text
  have hrespell : noted.Minds next := minds_respellAll hstandsSecond hloop
  have hmore : second.Minds next := hrespell
  have hnoted : second.Noted target := by
    rw [Noted, happlied.bind, happlied.link, PathSet.mem_insert, PathSet.mem_insert]
    exact ⟨.inl rfl, .inl rfl⟩
  have htaken : pass.workspace.Spares (fun path => path = file.path ∨ next.Noted path)
      first.workspace := by
    refine (hrelocated.spares (evolves_relocate hrunFirst).ages).mono fun path hpath => ?_
    obtain rfl | rfl := hpath
    · exact .inl rfl
    · exact .inr (hmore.1 _ hnoted)
  exact htaken.trans ((happly.trans hmore).2.mono fun _ => .inr)

end Pass

namespace Change

variable {environment : Environment} {workspace : Workspace} {change : Change} {pass : Pass}
  {outcome : Pass.Outcome}
  (hsound : workspace.Sound environment) (hadmitted : change.Admitted workspace)

include hsound hadmitted

/-- **The steps of a change spare every file that they leave there and do not note.** -/
theorem spares_steps (hsteps : change.steps environment (Pass.ofWorkspace workspace) = .ok pass) :
    (Pass.ofWorkspace workspace).workspace.Spares pass.Touched pass.workspace := by
  have hstart := Pass.sound_ofWorkspace hsound
  have hages := (evolves_steps hsteps).ages
  cases change with
  | rename source target =>
    obtain ⟨⟨file, hfile⟩, hnormal, hsupported, hfree⟩ := hadmitted
    obtain ⟨found, hfound, -, -, -, hgone, -⟩ :=
      exists_renamed hsound ⟨⟨file, hfile⟩, hnormal, hsupported, hfree⟩
    obtain rfl := Except.ok.inj (hfound.symm.trans hsteps)
    refine (Pass.spares_rename hstart hnormal hfree hsupported hsteps).mono fun path hpath => ?_
    obtain rfl | hpath := hpath
    · exact .inr (Option.map_eq_none_iff.1 hgone)
    · exact .inl hpath
  | remove path =>
    obtain ⟨file, hfile⟩ := hadmitted
    have hfile' : (Pass.ofWorkspace workspace).workspace.file? path = some file := hfile
    obtain ⟨dropped, hrun, hdropped⟩ := Pass.exists_dropped hstart hfile'
    rw [steps, hrun, ok_bind] at hsteps
    obtain rfl := Except.ok.inj hsteps
    refine (hdropped.swapped.spares hstart hages).mono fun other hother => .inr ?_
    have hgone := hdropped.swapped.file? hstart.ordered other
    rwa [if_pos hother] at hgone
  | edit path range text base =>
    obtain ⟨content, put, happlied, -⟩ := exists_applied_edit hsound hadmitted hsteps
    exact (happlied.minds hstart hages).2.mono fun _ => .inl
  | add path content =>
    obtain ⟨hnormal, hsupported, -⟩ := hadmitted
    obtain ⟨put, applied, hrun, happlied⟩ :=
      Pass.exists_applyText hstart hnormal hsupported content []
    rw [steps, hrun, ok_bind] at hsteps
    obtain rfl := Except.ok.inj hsteps
    have hminds : (Pass.ofWorkspace workspace).Minds applied := happlied.minds hstart hages
    exact hminds.2.mono fun _ => .inl

variable (hrun : change.run environment workspace = .ok outcome)

include hrun

/-- **Imports are right that were bound again or stand for what they stood for.** -/
theorem resolved_run_of_resolutions_eq
    (hresolved : ∀ file ∈ workspace.files, workspace.Resolved file)
    (hsame : ∀ pass, change.steps environment (Pass.ofWorkspace workspace) = .ok pass →
      ∀ file ∈ outcome.workspace.files, ¬ pass.Awaits file.path →
        outcome.workspace.resolutions file = workspace.resolutions file) :
    ∀ file ∈ outcome.workspace.files, outcome.workspace.Resolved file := by
  obtain ⟨pass, hsteps, hstands, hconverged⟩ := exists_pass hsound hadmitted hrun
  have hstart := Pass.sound_ofWorkspace hsound
  have hspares := spares_steps hsound hadmitted hsteps
  intro file hfile
  have hfile' : file ∈ pass.workspace.files := hconverged.files ▸ hfile
  by_cases hawaits : pass.Awaits file.path
  · exact hconverged.resolved_of_awaits hstands hfile' hawaits
  have hnot : ¬ pass.Touched file.path := Pass.not_touched (hstands.ordered.file?_self hfile')
    fun hnoted => hawaits (.waiting hnoted.1)
  have hold := (hspares.mem_files file hnot).1 hfile'
  intro entry hentry
  have hbefore := hentry
  rw [hsame pass hsteps file hfile hawaits] at hbefore
  obtain ⟨hid, fact, plan, hnow⟩ := Workspace.exists_of_mem_resolutions hentry
  obtain ⟨-, fact', plan', hthen⟩ := Workspace.exists_of_mem_resolutions hbefore
  rw [hconverged.bindingAt?_of_not_awaits hstands hfile' hawaits hid]
  have hbound := hresolved file hold entry hbefore
  refine hspares.bindings file hold hnot entry.1 hid entry.2 hbound fun target htarget => ?_
  have htargetNow : outcome.workspace.IsTarget target :=
    Workspace.isTarget_of_resolveImport (hnow.symm.trans htarget)
  have htargetThen : workspace.IsTarget target :=
    Workspace.isTarget_of_resolveImport (hthen.symm.trans htarget)
  rw [Workspace.IsTarget, hconverged.files] at htargetNow
  exact hstart.lasts hstands htargetThen htargetNow

/-- **Uses are right that were linked again or are called for as before.** -/
theorem linked_run_of_desiredEdges
    (hlinked : ∀ file ∈ workspace.files, workspace.Linked file)
    (hsame : ∀ pass, change.steps environment (Pass.ofWorkspace workspace) = .ok pass →
      ∀ file ∈ outcome.workspace.files, ¬ pass.Relinks file.path → ∀ key,
        (key ∈ (outcome.workspace.desiredEdges file).map Edge.key ↔
          key ∈ (workspace.desiredEdges file).map Edge.key)) :
    ∀ file ∈ outcome.workspace.files, outcome.workspace.Linked file := by
  obtain ⟨pass, hsteps, hstands, hconverged⟩ := exists_pass hsound hadmitted hrun
  have hstart := Pass.sound_ofWorkspace hsound
  have hspares := spares_steps hsound hadmitted hsteps
  intro file hfile
  have hfile' : file ∈ pass.workspace.files := hconverged.files ▸ hfile
  by_cases hrelinks : pass.Relinks file.path
  · exact (hconverged.exact_of_relinks hstands hfile' hrelinks).linked
  have hnot : ¬ pass.Touched file.path := Pass.not_touched (hstands.ordered.file?_self hfile')
    fun hnoted => hrelinks (.inl hnoted.2)
  have hold := (hspares.mem_files file hnot).1 hfile'
  intro key hkey
  have hcalled := hsame pass hsteps file hfile hrelinks key
  have hbefore : (Pass.ofWorkspace workspace).workspace.graph.hasEdge key ↔
      key ∈ (workspace.desiredEdges file).map Edge.key := hlinked file hold key hkey
  rw [hconverged.hasEdge_of_not_relinks hstands hfile' hrelinks hkey, hcalled, ← hbefore]
  refine ⟨hspares.fewer file hold hnot key hkey, fun hedge => ?_⟩
  have hwanted := hcalled.2 (hbefore.1 hedge)
  obtain ⟨owner, howner, htarget⟩ := (hconverged.sound.isUseOf_desiredEdges hwanted).target
  obtain ⟨owner', howner', htarget'⟩ := (hsound.isUseOf_desiredEdges (hbefore.1 hedge)).target
  exact hspares.uses file hold hnot key hkey (hstart.lasts hstands ⟨owner', howner', .inr htarget'⟩
    ⟨owner, hconverged.files ▸ howner, .inr htarget⟩) hedge

end Change

end CodeGraph
