import CodeGraph.Proofs.Workspace.Symbols

/-!
# Bringing the nodes of imports up to date

The nodes of a file's imports, one by one in the order of the facts. They keep their bindings, and
with them the edges to what they stand for.
-/

namespace CodeGraph

namespace Pass

/-- The binding an import has after its node was brought up to date: the one it had, or none if it
is new or what it stood for has gone. -/
def Keeps (gone : NodeId → Prop) (start : Graph) (id : NodeId) (binding : Binding) : Prop :=
  (∃ before, start.node? id = some before ∧ before.binding? = some binding) ∨
    ∃ reason, binding = .unresolved reason ∧ (start.node? id = none ∨
      ∃ before target, start.node? id = some before ∧
        before.binding? = some (.resolved target) ∧ gone target)

/-- The graph when the first imports have their nodes. -/
structure ImportsDone (start : Graph) (path : Path) (language : Language) (file : NodeId)
    (facts : List ImportFact) (carried : List (Option NodeId)) (after : Graph)
    (ids : List NodeId) : Prop where
  sound : after.Sound
  grows : start.nextId ≤ after.nextId
  taken : Taken start carried after.nextId ids
  shown : ∀ (index : Nat) id fact, ids[index]? = some id → facts[index]? = some fact →
    ∃ binding, Keeps (fun _ => False) start id binding ∧ after.node? id =
      some (({ Node.ofImport path language fact with id } : Node).rebind binding)
  others : ∀ id, id ∉ ids → after.node? id = start.node? id
  hasEdge : ∀ key, after.hasEdge key ↔ (∃ id ∈ ids, key = ⟨file, id, .imports⟩) ∨
    start.hasEdge key

/-- The nodes that a file had for its imports before. -/
structure OldImports (start : Graph) (file : NodeId) (ids : List NodeId) : Prop where
  nodup : ids.Nodup
  apart : file ∉ ids
  shown : ∀ id ∈ ids, ∃ node detail, start.node? id = some node ∧ node.kind = .importDecl ∧
    node.detail = .importDecl detail
  listed : ∀ id ∈ ids, start.hasEdge ⟨file, id, .imports⟩
  leaf : ∀ id ∈ ids, ∀ child, ¬ start.hasEdge ⟨id, child, .contains⟩

theorem keepBinding_ofImport {path : Path} {language : Language} {fact : ImportFact} {old : Node}
    {detail : ImportDetail} (hdetail : old.detail = .importDecl detail)
    (hkind : old.kind = .importDecl) :
    Graph.changed old (Node.ofImport path language fact).keepBinding =
      ({ Node.ofImport path language fact with id := old.id } : Node).rebind detail.binding := by
  obtain ⟨_, _, _, _, _, _, _, _⟩ := old
  subst hdetail hkind
  rfl

section Imports

variable {start : Graph} {path : Path} {language : Language} {file : NodeId}
  {facts : List ImportFact} {carried : List (Option NodeId)} {after : Graph} {ids : List NodeId}
  {olds : List ImportFact} {oldIds : List NodeId}

theorem OldImports.contains (hold : OldImports start file oldIds) {id : NodeId} (hid : id ∈ oldIds) :
    start.contains id := by
  obtain ⟨node, detail, hnode, -⟩ := hold.shown id hid
  exact Graph.contains_of_node? hnode

theorem OldImports.carries (hold : OldImports start file oldIds) (olds facts : List ImportFact) :
    Carries start ((ImportFact.pair olds facts).carried oldIds) where
  live := by
    intro index id hid
    obtain ⟨old, -, hat⟩ := Matching.getElem?_carried.1 hid
    exact hold.contains (List.mem_of_getElem? hat)
  injective := fun _ _ _ hfirst hsecond =>
    (ImportFact.sound_pair olds facts).carried_injective hold.nodup hfirst hsecond

theorem importsDone_nil (hsound : start.Sound) :
    ImportsDone start path language file facts carried start [] where
  sound := hsound
  grows := Nat.le_refl _
  taken := taken_nil ..
  shown := by
    intro index id fact hid
    cases hid
  others := fun _ _ => rfl
  hasEdge := fun key => by simp

/-- Once the next node shows its import and is listed, the step is done. -/
theorem ImportsDone.extend
    (hdone : ImportsDone start path language file facts carried after ids) {fact : ImportFact}
    (hfact : facts[ids.length]? = some fact) {id : NodeId} (hid : id ∉ ids) {next : Graph}
    (hsound : next.Sound) (hgrows : after.nextId ≤ next.nextId)
    (htaken : Taken start carried next.nextId (ids ++ [id])) (binding : Binding)
    (hkeeps : Keeps (fun _ => False) start id binding)
    (hnode : ∀ other, next.node? other = if other = id then
      some (({ Node.ofImport path language fact with id } : Node).rebind binding)
      else after.node? other)
    (hedge : ∀ key, next.hasEdge key ↔ key = ⟨file, id, .imports⟩ ∨ after.hasEdge key) :
    ImportsDone start path language file facts carried next (ids ++ [id]) where
  sound := hsound
  grows := hdone.grows.trans hgrows
  taken := htaken
  shown := by
    intro index other found hother hfound
    rcases getElem?_concat.1 hother with hold | ⟨rfl, rfl⟩
    · have hne : other ≠ id := fun heq => hid (heq ▸ List.mem_of_getElem? hold)
      simpa only [hnode, if_neg hne] using hdone.shown index other found hold hfound
    · rw [hfact] at hfound
      obtain rfl := Option.some.inj hfound
      exact ⟨binding, hkeeps, (hnode _).trans (if_pos rfl)⟩
  others := by
    intro other hother
    rw [List.mem_append, List.mem_singleton, not_or] at hother
    rw [hnode, if_neg hother.2]
    exact hdone.others other hother.1
  hasEdge := by
    intro key
    rw [hedge, hdone.hasEdge]
    simp only [List.mem_append, List.mem_singleton]
    constructor
    · rintro (rfl | ⟨other, hother, rfl⟩ | hold)
      · exact .inl ⟨id, .inr rfl, rfl⟩
      · exact .inl ⟨other, .inl hother, rfl⟩
      · exact .inr hold
    · rintro (⟨other, hother | rfl, rfl⟩ | hold)
      · exact .inr (.inl ⟨other, hother, rfl⟩)
      · exact .inl rfl
      · exact .inr (.inr hold)

theorem ImportsDone.step
    (hdone : ImportsDone start path language file facts carried after ids) (hsound : start.Sound)
    (hlive : start.contains file) (hold : OldImports start file oldIds)
    (hcarries : Carries start carried)
    (hmem : ∀ (index : Nat) id, carried[index]? = some (some id) → id ∈ oldIds)
    (hfile : file ∉ ids) {fact : ImportFact} {kept : Option NodeId}
    (hfact : facts[ids.length]? = some fact) (hkept : carried[ids.length]? = some kept) :
    ∃ next id, syncImport path language file (after, ids) (fact, kept) = .ok (next, ids ++ [id]) ∧
      file ≠ id ∧ ImportsDone start path language file facts carried next (ids ++ [id]) := by
  cases kept with
  | some id =>
    have hid : id ∉ ids := hdone.taken.keep_notMem hsound hcarries hkept
    have hidOld := hmem ids.length id hkept
    obtain ⟨before, detail, hbefore, hkind, hdetail⟩ := hold.shown id hidOld
    have hnow : after.node? id = some before := (hdone.others id hid).trans hbefore
    obtain ⟨next, hrun, hupdated⟩ := Graph.exists_update hdone.sound
      (Node.ofImport path language fact).keepBinding hnow fun hfileKind => by
        rw [hkind] at hfileKind
        cases hfileKind
    rw [keepBinding_ofImport hdetail hkind, Graph.id_of_node? hbefore] at hupdated
    have hbinding : before.binding? = some detail.binding := by rw [Node.binding?, hdetail]
    refine ⟨next, id, ?_, fun heq => hold.apart (heq ▸ hidOld), hdone.extend hfact hid
      hupdated.sound hupdated.nextId.ge
      (hupdated.nextId ▸ hdone.taken.keep hsound hcarries hkept) detail.binding
      (.inl ⟨before, hbefore, hbinding⟩) hupdated.node? fun key => ?_⟩
    · simp only [syncImport, hrun, ok_bind]
      rfl
    · rw [hupdated.hasEdge]
      refine ⟨.inr, ?_⟩
      rintro (rfl | h)
      · exact (hdone.hasEdge _).2 (.inr (hold.listed id hidOld))
      · exact h
  | none =>
    have hfileLive : after.contains file := by
      rw [Graph.contains, hdone.others file hfile]
      exact hlive
    obtain ⟨inserted, next, hrun, hedges, hsoundNext, hnextId, hnode, hlisted⟩ :=
      Graph.exists_insertNode_under hdone.sound hfileLive (Node.ofImport path language fact)
        (fun hkind => by cases hkind) .imports
    have hnone : start.node? after.nextId = none := hsound.node?_eq_none_of_le hdone.grows
    refine ⟨next, after.nextId, ?_, ?_, hdone.extend hfact
      (hdone.taken.add_notMem hsound hcarries hdone.grows) hsoundNext
      (by rw [hnextId]; exact Nat.le_succ _)
      (hnextId ▸ hdone.taken.add hsound hcarries hdone.grows hkept)
      (.unresolved "not resolved yet") (.inr ⟨_, rfl, .inl hnone⟩) hnode hlisted⟩
    · simp only [syncImport, hrun, ok_bind, hedges]
      rfl
    · rintro rfl
      rw [Graph.contains, hnone] at hlive
      cases hlive

variable (path language facts olds) in
theorem exists_syncImport_foldlM (hold : OldImports start file oldIds) (hsound : start.Sound)
    (hlive : start.contains file) :
    ∃ after ids, (facts.zip ((ImportFact.pair olds facts).carried oldIds)).foldlM
        (syncImport path language file) (start, []) = .ok (after, ids) ∧
      ids.length = facts.length ∧ file ∉ ids ∧ ImportsDone start path language file facts
        ((ImportFact.pair olds facts).carried oldIds) after ids := by
  set carried := (ImportFact.pair olds facts).carried oldIds with hcarried
  have hlength : carried.length = facts.length :=
    (Matching.length_carried _ oldIds).trans (ImportFact.sound_pair olds facts).length
  obtain ⟨⟨after, ids⟩, hloop, hcount, hapart, hdone⟩ := exists_foldlM
    (syncImport path language file) (facts.zip carried) (start, [])
    (fun done state => state.2.length = done.length ∧ file ∉ state.2 ∧
      ImportsDone start path language file facts carried state.1 state.2)
    ⟨rfl, List.not_mem_nil, importsDone_nil hsound⟩ (by
      rintro done ⟨fact, kept⟩ rest ⟨after, ids⟩ hitems ⟨hcount, hapart, hdone⟩
      have hentry : (facts.zip carried)[ids.length]? = some (fact, kept) := by
        rw [hitems, hcount]
        simp
      obtain ⟨hfact, hkept⟩ := List.getElem?_zip_eq_some.1 hentry
      have hmem : ∀ (index : Nat) id, carried[index]? = some (some id) → id ∈ oldIds := by
        intro index id hid
        obtain ⟨old, -, hat⟩ := Matching.getElem?_carried.1 (hcarried ▸ hid)
        exact List.mem_of_getElem? hat
      obtain ⟨next, id, hstep, hne, hnext⟩ := hdone.step hsound hlive hold
        (hold.carries olds facts) hmem hapart hfact hkept
      exact ⟨(next, ids ++ [id]), hstep, by simp [hcount], by simp [hapart, hne], hnext⟩)
  refine ⟨after, ids, hloop, ?_, hapart, hdone⟩
  rw [hcount, List.length_zip, hlength, Nat.min_self]

/-- An import that goes owns nothing. -/
theorem ImportsDone.not_owns (hdone : ImportsDone start path language file facts carried after ids)
    (hold : OldImports start file oldIds) {owner id : NodeId} (howner : owner ∈ oldIds)
    (hgone : owner ∉ ids) : ¬ after.Owns owner id := by
  rintro ⟨node, hnode, hmem, -⟩
  obtain ⟨found, detail, hfound, -, hdetail⟩ := hold.shown owner howner
  rw [hdone.others owner hgone, hfound] at hnode
  obtain rfl := Option.some.inj hnode
  rw [Graph.mem_owned_iff, Node.listed, hdetail, Graph.id_of_node? hfound] at hmem
  rcases (hdone.hasEdge _).1 (hmem.resolve_left List.not_mem_nil) with ⟨_, _, hkey⟩ | hstart
  · cases hkey
  · exact hold.leaf owner howner id hstart

/-- A binding is kept while the nodes that are gone are taken out, unless it led to one of these. -/
theorem Keeps.without {gone : NodeId → Prop} {before after : Graph} {id : NodeId} {fact : ImportFact}
    {binding : Binding} (hkeeps : Keeps (fun _ => False) start id binding)
    (hwithout : before.Without gone after) (hid : ¬ gone id)
    (hnode : before.node? id =
      some (({ Node.ofImport path language fact with id } : Node).rebind binding)) :
    ∃ kept, Keeps gone start id kept ∧ after.node? id =
      some (({ Node.ofImport path language fact with id } : Node).rebind kept) := by
  obtain ⟨now, hnow, hsurvives⟩ := hwithout.kept id _ hid hnode
  rcases hsurvives with ⟨keep, -, rfl⟩ | ⟨target, reason, hgone, hresolved, rfl⟩
  · refine ⟨binding, ?_, hnow⟩
    rcases hkeeps with hbefore | ⟨reason, hreason, hnone | ⟨_, _, _, _, hfalse⟩⟩
    · exact .inl hbefore
    · exact .inr ⟨reason, hreason, .inl hnone⟩
    · exact hfalse.elim
  · rw [Node.binding?_rebind] at hresolved
    obtain rfl := Option.some.inj hresolved
    refine ⟨.unresolved reason, ?_, hnow.trans (by rw [Node.rebind_rebind])⟩
    rcases hkeeps with ⟨before, hbefore, hresolved⟩ | ⟨_, hreason, _⟩
    · exact .inr ⟨reason, rfl, .inr ⟨before, target, hbefore, hresolved, hgone⟩⟩
    · cases hreason

variable (path language facts olds) in
/-- **Imports.** The nodes are those of the new facts, with the bindings they had, and what is no
longer among them is gone. -/
theorem exists_syncImports (hold : OldImports start file oldIds) (hsound : start.Sound)
    (hlive : start.contains file) :
    ∃ after ids, syncImports start path language file olds oldIds facts = .ok (after, ids) ∧
      ids.length = facts.length ∧ Replaced start oldIds ids after ∧ file ∉ ids ∧
      (∀ (index : Nat) id fact, ids[index]? = some id → facts[index]? = some fact →
        ∃ binding, Keeps (fun other => other ∈ oldIds ∧ other ∉ ids) start id binding ∧
          after.node? id =
            some (({ Node.ofImport path language fact with id } : Node).rebind binding)) ∧
      ∀ key, after.hasEdge key ↔ (∃ id ∈ ids, key = ⟨file, id, .imports⟩) ∨
        (start.hasEdge key ∧ ¬ (key.source ∈ oldIds ∧ key.source ∉ ids) ∧
          ¬ (key.target ∈ oldIds ∧ key.target ∉ ids)) := by
  set matching := ImportFact.pair olds facts with hmatching
  obtain ⟨middle, ids, hloop, hlength, hapart, hdone⟩ :=
    exists_syncImport_foldlM path language facts olds hold hsound hlive
  have hfree : ∀ id, id ∈ matching.free oldIds ↔ id ∈ oldIds ∧ id ∉ ids := fun id =>
    hdone.taken.mem_free_iff (hlength.trans (ImportFact.sound_pair olds facts).length.symm) hsound
      hold.nodup fun _ => hold.contains
  have hfreeLive : ∀ id ∈ matching.free oldIds, middle.contains id := by
    intro id hid
    obtain ⟨hidOld, hidNew⟩ := (hfree id).1 hid
    rw [Graph.contains, hdone.others id hidNew]
    exact hold.contains hidOld
  obtain ⟨after, hremove, hwithout⟩ := exists_removeFree hdone.sound (matching.free oldIds)
    (fun _ => 0) hfreeLive fun owner howner id howns =>
      absurd howns (hdone.not_owns hold ((hfree owner).1 howner).1 ((hfree owner).1 howner).2)
  have hwithout := hwithout.congr fun id => (hfree id).symm
  refine ⟨after, ids, ?_, hlength, replaced_of_without hdone.grows hdone.taken.nodup
    (fun _ => hdone.taken.fresh) hdone.others (fun id target hedge => (hdone.hasEdge _).2
      (.inr hedge)) hwithout, hapart, ?_, ?_⟩
  · rw [hmatching] at hremove
    simp only [syncImports, hloop, ok_bind, hremove]
    rfl
  · intro index id fact hid hfact
    obtain ⟨binding, hkeeps, hnode⟩ := hdone.shown index id fact hid hfact
    exact hkeeps.without hwithout (fun h => h.2 (List.mem_of_getElem? hid)) hnode
  · intro key
    rw [hwithout.hasEdge, hdone.hasEdge]
    constructor
    · rintro ⟨hlisted | hstart, hgone⟩
      · exact .inl hlisted
      · exact .inr ⟨hstart, hgone⟩
    · rintro (⟨id, hid, rfl⟩ | ⟨hstart, hgone⟩)
      · exact ⟨.inl ⟨id, hid, rfl⟩, fun h => hold.apart h.1, fun h => h.2 hid⟩
      · exact ⟨.inr hstart, hgone⟩

end Imports

end Pass

end CodeGraph
