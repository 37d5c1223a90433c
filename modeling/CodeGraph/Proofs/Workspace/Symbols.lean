import CodeGraph.Proofs.Except
import CodeGraph.Proofs.Workspace.Invariant

/-!
# Bringing the nodes of symbols up to date

The nodes of a file's symbols are brought up to date one by one, in the order of the facts, and those
without a fact are removed. Each step is described by what it does to the nodes and edges of the
graph, and so is the whole: the nodes are those of the new facts, and nothing else changes but for
what a removal takes away.
-/

namespace CodeGraph

namespace Pass

variable {graph : Graph}

/-! ### Single steps -/

theorem mem_strayParents {id : NodeId} {parent : Option NodeId} {key : EdgeKey} :
    key ∈ strayParents graph id parent ↔ graph.hasEdge key ∧ key.target = id ∧
      key.kind = .contains ∧ some key.source ≠ parent := by
  refine (Graph.exists_mem_edgesTo (fun key =>
    decide (key.kind = .contains) && decide (some key.source ≠ parent)) fun _ => rfl).trans ?_
  simp

theorem exists_placeSymbol (hsound : graph.Sound) {id : NodeId} (hid : graph.contains id)
    {parent : Option NodeId} (hparent : ∀ outer, parent = some outer → graph.contains outer) :
    ∃ after, placeSymbol graph id parent = .ok after ∧ graph.Rewired after ∧
      ∀ key, after.hasEdge key ↔ (∃ outer, parent = some outer ∧ key = ⟨outer, id, .contains⟩) ∨
        (graph.hasEdge key ∧ ¬ (key.kind = .contains ∧ key.target = id)) := by
  obtain ⟨hrewired, hremoved⟩ := Graph.removeEdges_view hsound (strayParents graph id parent)
  obtain ⟨after, hrun, hrewired', hinserted⟩ := Graph.exists_insertOptional hrewired.sound
    parent (fun outer => Edge.structural outer id .contains) (by
      intro outer houter
      rw [hrewired.contains, hrewired.contains]
      exact ⟨hparent outer houter, hid⟩)
  refine ⟨after, hrun, hrewired.trans hrewired', fun key => ?_⟩
  rw [hinserted, hremoved, mem_strayParents]
  change (∃ outer, parent = some outer ∧ key = ⟨outer, id, .contains⟩) ∨ _ ↔ _
  by_cases hedge : graph.hasEdge key
  · by_cases hinto : key.kind = .contains ∧ key.target = id
    · by_cases hsource : some key.source = parent
      · have hself : ∃ outer, parent = some outer ∧ key = ⟨outer, id, .contains⟩ := by
          obtain ⟨source, target, kind⟩ := key
          obtain ⟨rfl, rfl⟩ := hinto
          exact ⟨source, hsource.symm, rfl⟩
        simp [hself]
      · simp [hedge, hinto, hsource]
    · have hother : ¬ (key.target = id ∧ key.kind = .contains ∧ some key.source ≠ parent) :=
        fun h => hinto ⟨h.2.1, h.1⟩
      simp only [hedge, hother, hinto, and_false, not_false_eq_true, and_true]
  · simp [hedge]

/-- The ids that the first facts have got: the ones they keep, and new ones. -/
structure Taken (start : Graph) (carried : List (Option NodeId)) (next : NodeId)
    (ids : List NodeId) : Prop where
  kept : ∀ (index : Nat) id, index < ids.length → carried[index]? = some (some id) →
    ids[index]? = some id
  origin : ∀ (index : Nat) id, ids[index]? = some id →
    carried[index]? = some (some id) ∨ (start.nextId ≤ id ∧ id < next)
  nodup : ids.Nodup

section Taken

variable {start : Graph} {carried : List (Option NodeId)} {next : NodeId} {ids : List NodeId}

theorem taken_nil (start : Graph) (carried : List (Option NodeId)) (next : NodeId) :
    Taken start carried next [] where
  kept := fun _ _ hlt => absurd hlt (Nat.not_lt_zero _)
  origin := by
    intro index id hid
    cases hid
  nodup := List.nodup_nil

theorem getElem?_concat {α : Type} {items : List α} {last item : α} {index : Nat} :
    (items ++ [last])[index]? = some item ↔
      items[index]? = some item ∨ (index = items.length ∧ last = item) := by
  rcases Nat.lt_trichotomy index items.length with hlt | rfl | hgt
  · rw [List.getElem?_append_left hlt]
    simp [Nat.ne_of_lt hlt]
  · simp
  · rw [List.getElem?_eq_none (by simpa using Nat.succ_le_of_lt hgt),
      List.getElem?_eq_none hgt.le]
    simp [Nat.ne_of_gt hgt]

/-- Carried ids are live at the start and all different. -/
structure Carries (start : Graph) (carried : List (Option NodeId)) : Prop where
  live : ∀ (index : Nat) id, carried[index]? = some (some id) → start.contains id
  injective : ∀ (first second : Nat) id, carried[first]? = some (some id) →
    carried[second]? = some (some id) → first = second

theorem Carries.lt_nextId (hcarries : Carries start carried) (hsound : start.Sound) {index : Nat}
    {id : NodeId} (hid : carried[index]? = some (some id)) : id < start.nextId := by
  obtain ⟨node, hnode⟩ := Graph.contains_iff.1 (hcarries.live index id hid)
  exact hsound.lt_nextId hnode

theorem Taken.keep_notMem (htaken : Taken start carried next ids) (hsound : start.Sound)
    (hcarries : Carries start carried) {id : NodeId}
    (hid : carried[ids.length]? = some (some id)) : id ∉ ids := by
  intro hmem
  obtain ⟨index, hindex⟩ := List.mem_iff_getElem?.1 hmem
  rcases htaken.origin index id hindex with hcarried | ⟨hle, -⟩
  · have heq := hcarries.injective index ids.length id hcarried hid
    exact absurd (List.getElem?_eq_some_iff.1 hindex).1 (heq ▸ Nat.lt_irrefl _)
  · exact absurd (hcarries.lt_nextId hsound hid) (Nat.not_lt_of_le hle)

/-- One more id was taken: the one that is carried to its place, or a new one. -/
theorem Taken.concat (htaken : Taken start carried next ids) {id after : NodeId}
    (hle : next ≤ after) (hkept : ∀ other, carried[ids.length]? = some (some other) → id = other)
    (horigin : carried[ids.length]? = some (some id) ∨ start.nextId ≤ id ∧ id < after)
    (hnew : id ∉ ids) : Taken start carried after (ids ++ [id]) where
  kept := by
    intro index other hlt hother
    rw [getElem?_concat]
    rw [List.length_append, List.length_singleton] at hlt
    rcases Nat.lt_succ_iff_lt_or_eq.1 hlt with hlt | rfl
    · exact .inl (htaken.kept index other hlt hother)
    · exact .inr ⟨rfl, hkept other hother⟩
  origin := by
    intro index other hother
    rcases getElem?_concat.1 hother with hold | ⟨rfl, rfl⟩
    · rcases htaken.origin index other hold with hcarried | ⟨hfresh, hlt⟩
      · exact .inl hcarried
      · exact .inr ⟨hfresh, hlt.trans_le hle⟩
    · exact horigin
  nodup := by
    refine htaken.nodup.append (List.nodup_singleton id) ?_
    intro other hold hother
    exact hnew (List.mem_singleton.1 hother ▸ hold)

theorem Taken.keep (htaken : Taken start carried next ids) (hsound : start.Sound)
    (hcarries : Carries start carried) {id : NodeId}
    (hid : carried[ids.length]? = some (some id)) : Taken start carried next (ids ++ [id]) :=
  htaken.concat (Nat.le_refl next)
    (fun _ hother => Option.some.inj (Option.some.inj (hid.symm.trans hother))) (.inl hid)
    (htaken.keep_notMem hsound hcarries hid)

theorem Taken.add_notMem (htaken : Taken start carried next ids) (hsound : start.Sound)
    (hcarries : Carries start carried) (hnext : start.nextId ≤ next) : next ∉ ids := by
  intro hmem
  obtain ⟨index, hindex⟩ := List.mem_iff_getElem?.1 hmem
  rcases htaken.origin index next hindex with hcarried | ⟨-, hlt⟩
  · exact absurd (hcarries.lt_nextId hsound hcarried) (Nat.not_lt_of_le hnext)
  · exact absurd hlt (Nat.lt_irrefl _)

theorem Taken.add (htaken : Taken start carried next ids) (hsound : start.Sound)
    (hcarries : Carries start carried) (hnext : start.nextId ≤ next)
    (hnone : carried[ids.length]? = some none) :
    Taken start carried (next + 1) (ids ++ [next]) :=
  htaken.concat (Nat.le_succ next)
    (fun _ hother => nomatch Option.some.inj (hnone.symm.trans hother))
    (.inr ⟨hnext, Nat.lt_succ_self next⟩) (htaken.add_notMem hsound hcarries hnext)

theorem Taken.fresh {matching : Matching} {old : List NodeId}
    (htaken : Taken start (matching.carried old) next ids) {id : NodeId} (hid : id ∈ ids) :
    id ∈ old ∨ start.nextId ≤ id := by
  obtain ⟨index, hindex⟩ := List.mem_iff_getElem?.1 hid
  rcases htaken.origin index id hindex with hcarried | ⟨hle, -⟩
  · obtain ⟨before, -, hat⟩ := Matching.getElem?_carried.1 hcarried
    exact .inl (List.mem_of_getElem? hat)
  · exact .inr hle

/-- What is left over is exactly what was there and has no fact any more. -/
theorem Taken.mem_free_iff {matching : Matching} {old : List NodeId}
    (htaken : Taken start (matching.carried old) next ids) (hlength : ids.length = matching.length)
    (hsound : start.Sound) (hnodup : old.Nodup) (hlive : ∀ id ∈ old, start.contains id)
    {id : NodeId} : id ∈ matching.free old ↔ id ∈ old ∧ id ∉ ids := by
  constructor
  · intro hmem
    obtain ⟨before, hat, hunused⟩ := Matching.mem_free.1 hmem
    refine ⟨List.mem_of_getElem? hat, fun hid => ?_⟩
    obtain ⟨index, hindex⟩ := List.mem_iff_getElem?.1 hid
    rcases htaken.origin index id hindex with hcarried | ⟨hle, -⟩
    · exact Matching.carried_ne_of_mem_free hnodup hmem index hcarried
    · obtain ⟨node, hnode⟩ := Graph.contains_iff.1 (hlive id (List.mem_of_getElem? hat))
      exact absurd (hsound.lt_nextId hnode) (Nat.not_lt_of_le hle)
  · rintro ⟨hmem, hnot⟩
    rcases Matching.exists_carried_or_mem_free matching hmem with ⟨index, hid⟩ | h
    · have hlt : index < ids.length := by
        rw [hlength, ← Matching.length_carried matching old]
        exact (List.getElem?_eq_some_iff.1 hid).1
      exact absurd (List.mem_of_getElem? (htaken.kept index id hlt hid)) hnot
    · exact h

end Taken

/-! ### What disappeared -/

theorem removeFree_eq (graph : Graph) (ids : List NodeId) :
    removeFree graph ids = match Graph.removeEach Graph.removeNode ids graph with
      | (after, .ok ()) => .ok after
      | (_, .error error) => .error error := by
  induction ids generalizing graph with
  | nil => rfl
  | cons first rest ih =>
    rw [removeFree, List.foldlM_cons, Graph.removeEach]
    split
    · rw [Graph.remove]
      cases hrun : graph.removeNode first with
      | mk after outcome =>
        cases outcome with
        | ok node => exact ih after
        | error error => rfl
    · exact ih graph

/-- Nodes that own nothing but each other go alone. -/
theorem exists_removeFree (hsound : graph.Sound) (ids : List NodeId) (rank : NodeId → Nat)
    (hlive : ∀ id ∈ ids, graph.contains id)
    (hclosed : ∀ owner ∈ ids, ∀ id, graph.Owns owner id → id ∈ ids ∧ rank id < rank owner) :
    ∃ after, removeFree graph ids = .ok after ∧ graph.Without (· ∈ ids) after := by
  have hreaches : ∀ root ∈ ids, ∀ id, graph.Reaches root id → id ∈ ids := by
    intro root hroot id hid
    induction hid with
    | refl => exact hroot
    | tail _ hstep ih => exact (hclosed _ ih _ hstep).1
  obtain ⟨after, hrun, hwithout⟩ := Graph.exists_removeEach (Graph.removes_removeNode rank) hsound
    ids fun id hid _ => ⟨fun owner other howner howns =>
      (hclosed owner (hreaches id hid owner howner) other howns).2, trivial⟩
  refine ⟨after, by rw [removeFree_eq, hrun], hwithout.congr fun id => ?_⟩
  constructor
  · exact fun hid => ⟨id, hid, hlive id hid, .refl⟩
  · rintro ⟨root, hroot, -, hid⟩
    exact hreaches root hroot id hid

/-- A file's nodes of one sort, before and after they were brought up to date, and what became of
everything else. -/
structure Replaced (start : Graph) (old new : List NodeId) (after : Graph) : Prop where
  sound : after.Sound
  grows : start.nextId ≤ after.nextId
  nodup : new.Nodup
  fresh : ∀ id ∈ new, id ∈ old ∨ start.nextId ≤ id
  dead : ∀ id ∈ old, id ∉ new → after.node? id = none
  absent : ∀ id, id ∉ new → start.node? id = none → after.node? id = none
  kept : ∀ id node, id ∉ old → id ∉ new → start.node? id = some node →
    ∃ now, after.node? id = some now ∧
      node.Survives (fun other => other ∈ old ∧ other ∉ new) now
  unbound : ∀ id target now, target ∈ old → target ∉ new →
    start.hasEdge ⟨id, target, .imports⟩ → after.node? id = some now →
    now.binding? ≠ some (.resolved target)

theorem replaced_of_without {start middle after : Graph} {old new : List NodeId}
    (hgrows : start.nextId ≤ middle.nextId) (hnodup : new.Nodup)
    (hfresh : ∀ id ∈ new, id ∈ old ∨ start.nextId ≤ id)
    (hothers : ∀ id, id ∉ new → middle.node? id = start.node? id)
    (hedges : ∀ id target, start.hasEdge ⟨id, target, .imports⟩ →
      middle.hasEdge ⟨id, target, .imports⟩)
    (hwithout : middle.Without (fun id => id ∈ old ∧ id ∉ new) after) :
    Replaced start old new after where
  sound := hwithout.sound
  grows := hwithout.nextId ▸ hgrows
  nodup := hnodup
  fresh := hfresh
  dead := fun id hmem hnot => hwithout.dead id ⟨hmem, hnot⟩
  absent := fun id hnot hnone => hwithout.absent id ((hothers id hnot).trans hnone)
  kept := fun id node hnotOld hnot hnode =>
    hwithout.kept id node (fun h => hnotOld h.1) ((hothers id hnot).trans hnode)
  unbound := fun id target now htarget hnot hedge hnow =>
    hwithout.unbound id target now ⟨htarget, hnot⟩ (hedges id target hedge) hnow

/-! ### Symbols -/

/-- The graph when the first facts have their nodes. -/
structure SymbolsDone (start : Graph) (path : Path) (language : Language) (file : NodeId)
    (facts : List SymbolFact) (carried : List (Option NodeId)) (after : Graph)
    (ids : List NodeId) : Prop where
  sound : after.Sound
  grows : start.nextId ≤ after.nextId
  taken : Taken start carried after.nextId ids
  shown : ∀ (index : Nat) id fact, ids[index]? = some id → facts[index]? = some fact →
    after.node? id = some { Node.ofSymbol path language (fact.parent.bind (ids[·]?)) fact with id }
  others : ∀ id, id ∉ ids → after.node? id = start.node? id
  hasEdge : ∀ key, after.hasEdge key ↔ (∃ id ∈ ids, key = ⟨file, id, .defines⟩) ∨
    (∃ parent child, Nests facts ids parent child ∧ key = ⟨parent, child, .contains⟩) ∨
    (start.hasEdge key ∧ ¬ (key.kind = .contains ∧ key.target ∈ ids))

/-- What the steps on symbols rely on: parents come first, nothing is a file, and what is carried
over has its kind and its place in the file already. -/
structure SymbolsReady (start : Graph) (file : NodeId) (facts : List SymbolFact)
    (carried : List (Option NodeId)) : Prop where
  sound : start.Sound
  live : start.contains file
  carries : Carries start carried
  parent : ∀ (index : Nat) fact, facts[index]? = some fact → ∀ outer, fact.parent = some outer →
    outer < index
  kind : ∀ fact ∈ facts, fact.kind.isSymbol = true
  sameKind : ∀ (index : Nat) id fact, carried[index]? = some (some id) →
    facts[index]? = some fact → ∃ node, start.node? id = some node ∧ node.kind = fact.kind
  defined : ∀ (index : Nat) id, carried[index]? = some (some id) →
    start.hasEdge ⟨file, id, .defines⟩

theorem nests_concat {facts : List SymbolFact} {ids : List NodeId} {id : NodeId} {fact : SymbolFact}
    (hfact : facts[ids.length]? = some fact)
    (hparent : ∀ (index : Nat) fact, facts[index]? = some fact → ∀ outer,
      fact.parent = some outer → outer < index) (parent child : NodeId) :
    Nests facts (ids ++ [id]) parent child ↔ Nests facts ids parent child ∨
      (fact.parent.bind (ids[·]?) = some parent ∧ child = id) := by
  constructor
  · rintro ⟨index, outer, other, hother, houter, hin, hat⟩
    have hlt := hparent index other hother outer houter
    have hindex : index < ids.length + 1 := by
      simpa using (List.getElem?_eq_some_iff.1 hat).1
    rw [List.getElem?_append_left (by omega)] at hin
    rcases getElem?_concat.1 hat with hat | ⟨rfl, rfl⟩
    · exact .inl ⟨index, outer, other, hother, houter, hin, hat⟩
    · rw [hfact] at hother
      obtain rfl := Option.some.inj hother
      exact .inr ⟨by rw [houter, Option.bind_some, hin], rfl⟩
  · rintro (⟨index, outer, other, hother, houter, hin, hat⟩ | ⟨hin, rfl⟩)
    · exact ⟨index, outer, other, hother, houter, getElem?_concat.2 (.inl hin),
        getElem?_concat.2 (.inl hat)⟩
    · obtain ⟨outer, houter, hin⟩ := Option.bind_eq_some_iff.1 hin
      exact ⟨ids.length, outer, fact, hfact, houter, getElem?_concat.2 (.inl hin),
        getElem?_concat.2 (.inr ⟨rfl, rfl⟩)⟩

/-- The parent of a fact is looked up among the ids before it, and more ids change nothing. -/
theorem bind_parent_concat {ids : List NodeId} {id : NodeId} {fact : SymbolFact} {index : Nat}
    (hindex : index ≤ ids.length) (hparent : ∀ outer, fact.parent = some outer → outer < index) :
    fact.parent.bind ((ids ++ [id])[·]?) = fact.parent.bind (ids[·]?) := by
  cases houter : fact.parent with
  | none => rfl
  | some outer =>
    exact List.getElem?_append_left ((hparent outer houter).trans_le hindex)

section Symbols

variable {start : Graph} {path : Path} {language : Language} {file : NodeId}
  {facts : List SymbolFact} {carried : List (Option NodeId)} {after : Graph} {ids : List NodeId}

theorem symbolsDone_nil (hready : SymbolsReady start file facts carried) :
    SymbolsDone start path language file facts carried start [] where
  sound := hready.sound
  grows := Nat.le_refl _
  taken := taken_nil ..
  shown := by
    intro index id fact hid
    cases hid
  others := fun _ _ => rfl
  hasEdge := by
    intro key
    have hnests : ∀ parent child, ¬ Nests facts [] parent child := by
      rintro parent child ⟨index, outer, fact, -, -, -, hat⟩
      cases hat
    simp [hnests]

theorem SymbolsDone.contains (hdone : SymbolsDone start path language file facts carried after ids)
    (hlength : ids.length ≤ facts.length) {id : NodeId} (hid : id ∈ ids) : after.contains id := by
  obtain ⟨index, hindex⟩ := List.mem_iff_getElem?.1 hid
  have hlt := (List.getElem?_eq_some_iff.1 hindex).1.trans_le hlength
  exact Graph.contains_of_node? (hdone.shown index id _ hindex (List.getElem?_eq_getElem hlt))

/-- Once the next node shows its fact, putting it in its place finishes the step. -/
theorem SymbolsDone.place (hdone : SymbolsDone start path language file facts carried after ids)
    (hready : SymbolsReady start file facts carried) {fact : SymbolFact}
    (hfact : facts[ids.length]? = some fact) {id : NodeId} (hid : id ∉ ids) {middle : Graph}
    (hsound : middle.Sound) (hgrows : after.nextId ≤ middle.nextId)
    (htaken : Taken start carried middle.nextId (ids ++ [id]))
    (hnode : ∀ other, middle.node? other = if other = id then
      some { Node.ofSymbol path language (fact.parent.bind (ids[·]?)) fact with id }
      else after.node? other)
    (hedge : ∀ key, middle.hasEdge key ↔ key = ⟨file, id, .defines⟩ ∨ after.hasEdge key) :
    ∃ final, placeSymbol middle id (fact.parent.bind (ids[·]?)) = .ok final ∧
      SymbolsDone start path language file facts carried final (ids ++ [id]) := by
  have hlength : ids.length < facts.length := (List.getElem?_eq_some_iff.1 hfact).1
  have hlive : middle.contains id :=
    Graph.contains_of_node? ((hnode id).trans (if_pos rfl))
  have hparentLive : ∀ outer, fact.parent.bind (ids[·]?) = some outer → middle.contains outer := by
    intro outer houter
    obtain ⟨index, -, hindex⟩ := Option.bind_eq_some_iff.1 houter
    have hmem := List.mem_of_getElem? hindex
    have hne : outer ≠ id := fun heq => hid (heq ▸ hmem)
    rw [Graph.contains, hnode, if_neg hne]
    exact hdone.contains hlength.le hmem
  obtain ⟨final, hrun, hrewired, hplaced⟩ := exists_placeSymbol hsound hlive hparentLive
  refine ⟨final, hrun, hrewired.sound, ?_, hrewired.nextId ▸ htaken, ?_, ?_, ?_⟩
  · exact hrewired.nextId ▸ hdone.grows.trans hgrows
  · intro index other found hother hfound
    rw [hrewired.node?, hnode]
    rcases getElem?_concat.1 hother with hold | ⟨rfl, rfl⟩
    · have hne : other ≠ id := fun heq => hid (heq ▸ List.mem_of_getElem? hold)
      have hindex : index < ids.length := (List.getElem?_eq_some_iff.1 hold).1
      rw [if_neg hne, bind_parent_concat hindex.le (hready.parent index found hfound)]
      exact hdone.shown index other found hold hfound
    · rw [hfact] at hfound
      obtain rfl := Option.some.inj hfound
      rw [if_pos rfl, bind_parent_concat (Nat.le_refl _) (hready.parent _ fact hfact)]
  · intro other hother
    rw [List.mem_append, List.mem_singleton, not_or] at hother
    rw [hrewired.node?, hnode, if_neg hother.2]
    exact hdone.others other hother.1
  · intro key
    rw [hplaced, hedge, hdone.hasEdge]
    simp only [nests_concat hfact hready.parent, List.mem_append, List.mem_singleton]
    constructor
    · rintro (⟨outer, houter, rfl⟩ |
        ⟨rfl | ⟨other, hother, rfl⟩ | ⟨parent, child, hnests, rfl⟩ | ⟨hold, hnot⟩, hkeeps⟩)
      · exact .inr (.inl ⟨outer, id, .inr ⟨houter, rfl⟩, rfl⟩)
      · exact .inl ⟨id, .inr rfl, rfl⟩
      · exact .inl ⟨other, .inl hother, rfl⟩
      · exact .inr (.inl ⟨parent, child, .inl hnests, rfl⟩)
      · refine .inr (.inr ⟨hold, ?_⟩)
        rintro ⟨hkind, hmem | heq⟩
        · exact hnot ⟨hkind, hmem⟩
        · exact hkeeps ⟨hkind, heq⟩
    · rintro (⟨other, hother | rfl, rfl⟩ | ⟨parent, child, hnests | ⟨houter, rfl⟩, rfl⟩ |
        ⟨hold, hnot⟩)
      · exact .inr ⟨.inr (.inl ⟨other, hother, rfl⟩), fun h => by cases h.1⟩
      · exact .inr ⟨.inl rfl, fun h => by cases h.1⟩
      · refine .inr ⟨.inr (.inr (.inl ⟨parent, child, hnests, rfl⟩)), fun h => hid ?_⟩
        obtain ⟨index, outer, other, -, -, -, hat⟩ := hnests
        exact h.2 ▸ List.mem_of_getElem? hat
      · exact .inl ⟨parent, houter, rfl⟩
      · exact .inr ⟨.inr (.inr (.inr ⟨hold, fun h => hnot ⟨h.1, .inl h.2⟩⟩)),
          fun h => hnot ⟨h.1, .inr h.2⟩⟩

theorem SymbolsDone.step (hdone : SymbolsDone start path language file facts carried after ids)
    (hready : SymbolsReady start file facts carried) {fact : SymbolFact} {kept : Option NodeId}
    (hfact : facts[ids.length]? = some fact) (hkept : carried[ids.length]? = some kept) :
    ∃ final id, syncSymbol path language file (after, ids) (fact, kept) = .ok (final, ids ++ [id]) ∧
      SymbolsDone start path language file facts carried final (ids ++ [id]) := by
  have hkind := hready.kind fact (List.mem_of_getElem? hfact)
  have hnotFile : fact.kind ≠ .file := by
    intro heq
    rw [heq] at hkind
    cases hkind
  set node := Node.ofSymbol path language (fact.parent.bind (ids[·]?)) fact with hnodeDef
  cases kept with
  | some id =>
    have hid : id ∉ ids := hdone.taken.keep_notMem hready.sound hready.carries hkept
    obtain ⟨before, hbefore, hsame⟩ := hready.sameKind ids.length id fact hkept hfact
    have hnow : after.node? id = some before := (hdone.others id hid).trans hbefore
    obtain ⟨middle, hrun, hupdated⟩ := Graph.exists_update hdone.sound (fun _ => node)
      hnow fun hfile => absurd (hsame.symm.trans hfile) hnotFile
    have hchanged : Graph.changed before (fun _ => node) = { node with id } := by
      rw [Graph.changed, Graph.id_of_node? hbefore, hsame]
      rfl
    rw [hchanged] at hupdated
    obtain ⟨final, hplace, hfinal⟩ := hdone.place hready hfact hid hupdated.sound
      hupdated.nextId.ge
      (hupdated.nextId ▸ hdone.taken.keep hready.sound hready.carries hkept) hupdated.node? (by
        intro key
        rw [hupdated.hasEdge]
        refine ⟨.inr, ?_⟩
        rintro (rfl | h)
        · exact (hdone.hasEdge _).2
            (.inr (.inr ⟨hready.defined ids.length id hkept, fun h => by cases h.1⟩))
        · exact h)
    refine ⟨final, id, ?_, hfinal⟩
    simp only [syncSymbol, ← hnodeDef, hrun, ok_bind, hplace]
    rfl
  | none =>
    have hfresh := hdone.taken.add_notMem hready.sound hready.carries hdone.grows
    have hfileLive : after.contains file := by
      by_cases hmem : file ∈ ids
      · exact hdone.contains (List.getElem?_eq_some_iff.1 hfact).1.le hmem
      · rw [Graph.contains, hdone.others file hmem]
        exact hready.live
    obtain ⟨inserted, middle, hrun, hedges, hsound, hnextId, hnode, hdefined⟩ :=
      Graph.exists_insertNode_under hdone.sound hfileLive node hnotFile .defines
    obtain ⟨final, hplace, hfinal⟩ := hdone.place hready hfact hfresh hsound
      (by rw [hnextId]; exact Nat.le_succ _)
      (hnextId ▸ hdone.taken.add hready.sound hready.carries hdone.grows hkept) hnode hdefined
    refine ⟨final, after.nextId, ?_, hfinal⟩
    simp only [syncSymbol, ← hnodeDef, hrun, ok_bind, hedges, hplace]
    rfl

variable (path language) in
theorem exists_syncSymbol_foldlM (hready : SymbolsReady start file facts carried)
    (hlength : carried.length = facts.length) :
    ∃ after ids, (facts.zip carried).foldlM (syncSymbol path language file) (start, []) =
        .ok (after, ids) ∧ ids.length = facts.length ∧
      SymbolsDone start path language file facts carried after ids := by
  obtain ⟨⟨after, ids⟩, hrun, hcount, hdone⟩ := exists_foldlM
    (syncSymbol path language file) (facts.zip carried) (start, [])
    (fun done state => state.2.length = done.length ∧
      SymbolsDone start path language file facts carried state.1 state.2)
    ⟨rfl, symbolsDone_nil hready⟩ (by
      rintro done ⟨fact, kept⟩ rest ⟨after, ids⟩ hitems ⟨hcount, hdone⟩
      have hentry : (facts.zip carried)[ids.length]? = some (fact, kept) := by
        rw [hitems, hcount]
        simp
      obtain ⟨hfact, hkept⟩ := List.getElem?_zip_eq_some.1 hentry
      obtain ⟨final, id, hstep, hfinal⟩ := hdone.step hready hfact hkept
      exact ⟨(final, ids ++ [id]), hstep, by simp [hcount], hfinal⟩)
  refine ⟨after, ids, hrun, ?_, hdone⟩
  rw [hcount, List.length_zip, hlength, Nat.min_self]

/-- The nodes that a file had before, by the facts they were made for. -/
structure OldSymbols (start : Graph) (file : NodeId) (facts : List SymbolFact)
    (ids : List NodeId) : Prop where
  length : ids.length = facts.length
  nodup : ids.Nodup
  apart : file ∉ ids
  shown : ∀ (index : Nat) id fact, ids[index]? = some id → facts[index]? = some fact →
    ∃ node, start.node? id = some node ∧ node.kind = fact.kind ∧ node.listed = []
  defined : ∀ id ∈ ids, start.hasEdge ⟨file, id, .defines⟩
  nested : ∀ parent ∈ ids, ∀ child, start.hasEdge ⟨parent, child, .contains⟩ →
    Nests facts ids parent child
  parent : ∀ (index : Nat) fact, facts[index]? = some fact → ∀ outer, fact.parent = some outer →
    outer < index

theorem OldSymbols.exists_node {olds : List SymbolFact} {oldIds : List NodeId}
    (hold : OldSymbols start file olds oldIds) {id : NodeId} (hid : id ∈ oldIds) :
    ∃ node, start.node? id = some node ∧ node.listed = [] := by
  obtain ⟨index, hindex⟩ := List.mem_iff_getElem?.1 hid
  have hlt : index < olds.length := hold.length ▸ (List.getElem?_eq_some_iff.1 hindex).1
  obtain ⟨node, hnode, -, hlisted⟩ := hold.shown index id _ hindex (List.getElem?_eq_getElem hlt)
  exact ⟨node, hnode, hlisted⟩

theorem OldSymbols.contains {olds : List SymbolFact} {oldIds : List NodeId}
    (hold : OldSymbols start file olds oldIds) {id : NodeId} (hid : id ∈ oldIds) :
    start.contains id := by
  obtain ⟨node, hnode, -⟩ := hold.exists_node hid
  exact Graph.contains_of_node? hnode

theorem OldSymbols.ready {olds : List SymbolFact} {oldIds : List NodeId}
    (hold : OldSymbols start file olds oldIds) (hsound : start.Sound) (hlive : start.contains file)
    (hparent : ∀ (index : Nat) fact, facts[index]? = some fact → ∀ outer,
      fact.parent = some outer → outer < index)
    (hkind : ∀ fact ∈ facts, fact.kind.isSymbol = true) :
    SymbolsReady start file facts ((SymbolFact.pair olds facts).carried oldIds) := by
  have hpair := SymbolFact.sound_pair olds facts
  have hmem : ∀ (index : Nat) id,
      ((SymbolFact.pair olds facts).carried oldIds)[index]? = some (some id) → id ∈ oldIds := by
    intro index id hid
    obtain ⟨old, -, hold⟩ := Matching.getElem?_carried.1 hid
    exact List.mem_of_getElem? hold
  refine ⟨hsound, hlive, ⟨?_, ?_⟩, hparent, hkind, ?_, ?_⟩
  · exact fun index id hid => hold.contains (hmem index id hid)
  · intro first second id hfirst hsecond
    exact hpair.carried_injective hold.nodup hfirst hsecond
  · intro index id fact hid hfact
    obtain ⟨old, hpartner, hat⟩ := Matching.getElem?_carried.1 hid
    obtain ⟨before, after, hbefore, hafter, hsame⟩ := hpair.fits index old hpartner
    rw [hfact] at hafter
    obtain rfl := Option.some.inj hafter
    obtain ⟨node, hnode, hnodeKind, -⟩ := hold.shown old id before hat hbefore
    exact ⟨node, hnode, hnodeKind.trans hsame⟩
  · exact fun index id hid => hold.defined id (hmem index id hid)

/-- What a symbol that goes still owns goes as well, and comes later in the file. -/
theorem SymbolsDone.goes_of_owns {olds : List SymbolFact} {oldIds : List NodeId}
    (hdone : SymbolsDone start path language file facts carried after ids)
    (hold : OldSymbols start file olds oldIds) {owner id : NodeId} (howner : owner ∈ oldIds)
    (hgone : owner ∉ ids) (howns : after.Owns owner id) : (id ∈ oldIds ∧ id ∉ ids) ∧
      oldIds.length - oldIds.idxOf id < oldIds.length - oldIds.idxOf owner := by
  obtain ⟨node, hnode, hmem, -⟩ := howns
  obtain ⟨found, hfound, hlisted⟩ := hold.exists_node howner
  rw [hdone.others owner hgone, hfound] at hnode
  obtain rfl := Option.some.inj hnode
  rw [Graph.mem_owned_iff, hlisted, Graph.id_of_node? hfound] at hmem
  have hedge := hmem.resolve_left List.not_mem_nil
  rcases (hdone.hasEdge _).1 hedge with ⟨_, _, hkey⟩ | ⟨parent, child, hnests, hkey⟩ | hstart
  · cases hkey
  · cases hkey
    obtain ⟨_, _, _, _, _, hat, _⟩ := hnests
    exact absurd (List.mem_of_getElem? hat) hgone
  · obtain ⟨hbefore, hnot⟩ := hstart
    obtain ⟨index, outer, fact, hfact, houter, hin, hat⟩ := hold.nested owner howner id hbefore
    have hlt := hold.parent index fact hfact outer houter
    refine ⟨⟨List.mem_of_getElem? hat, fun h => hnot ⟨rfl, h⟩⟩, ?_⟩
    obtain ⟨houterLt, rfl⟩ := List.getElem?_eq_some_iff.1 hin
    obtain ⟨hindexLt, rfl⟩ := List.getElem?_eq_some_iff.1 hat
    rw [hold.nodup.idxOf_getElem, hold.nodup.idxOf_getElem]
    omega

variable (path language) in
/-- **Symbols.** The nodes are those of the new facts, and what is no longer among them is gone. -/
theorem exists_syncSymbols {olds : List SymbolFact} {oldIds : List NodeId}
    (hold : OldSymbols start file olds oldIds) (hsound : start.Sound) (hlive : start.contains file)
    (hparent : ∀ (index : Nat) fact, facts[index]? = some fact → ∀ outer,
      fact.parent = some outer → outer < index)
    (hkind : ∀ fact ∈ facts, fact.kind.isSymbol = true) :
    ∃ after ids, syncSymbols start path language file olds oldIds facts = .ok (after, ids) ∧
      ids.length = facts.length ∧ Replaced start oldIds ids after ∧
      (∀ (index : Nat) id fact, ids[index]? = some id → facts[index]? = some fact →
        after.node? id =
          some { Node.ofSymbol path language (fact.parent.bind (ids[·]?)) fact with id }) ∧
      ∀ key, after.hasEdge key ↔ (∃ id ∈ ids, key = ⟨file, id, .defines⟩) ∨
        (∃ parent child, Nests facts ids parent child ∧ key = ⟨parent, child, .contains⟩) ∨
        (start.hasEdge key ∧ ¬ (key.kind = .contains ∧ key.target ∈ ids) ∧
          ¬ (key.source ∈ oldIds ∧ key.source ∉ ids) ∧
          ¬ (key.target ∈ oldIds ∧ key.target ∉ ids)) := by
  set matching := SymbolFact.pair olds facts with hmatching
  have hpair := SymbolFact.sound_pair olds facts
  have hready := hold.ready hsound hlive hparent hkind
  have hcarriedLength : (matching.carried oldIds).length = facts.length :=
    (Matching.length_carried matching oldIds).trans hpair.length
  obtain ⟨middle, ids, hloop, hlength, hdone⟩ :=
    exists_syncSymbol_foldlM path language hready hcarriedLength
  have hfree : ∀ id, id ∈ matching.free oldIds ↔ id ∈ oldIds ∧ id ∉ ids := fun id =>
    hdone.taken.mem_free_iff (hlength.trans hpair.length.symm) hsound hold.nodup
      fun _ => hold.contains
  have hfreeLive : ∀ id ∈ matching.free oldIds, middle.contains id := by
    intro id hid
    obtain ⟨hidOld, hidNew⟩ := (hfree id).1 hid
    rw [Graph.contains, hdone.others id hidNew]
    exact hold.contains hidOld
  obtain ⟨after, hremove, hwithout⟩ := exists_removeFree hdone.sound (matching.free oldIds)
    (fun id => oldIds.length - oldIds.idxOf id) hfreeLive fun owner howner id howns => by
      obtain ⟨hownerOld, hownerNew⟩ := (hfree owner).1 howner
      rw [hfree]
      exact hdone.goes_of_owns hold hownerOld hownerNew howns
  have hwithout := hwithout.congr fun id => (hfree id).symm
  refine ⟨after, ids, ?_, hlength, replaced_of_without hdone.grows hdone.taken.nodup
    (fun _ => hdone.taken.fresh) hdone.others (fun id target hedge => (hdone.hasEdge _).2
      (.inr (.inr ⟨hedge, fun h => by cases h.1⟩))) hwithout, ?_, ?_⟩
  · rw [← hmatching] at hloop
    simp only [syncSymbols, ← hmatching, hloop, ok_bind, hremove]
    rfl
  · intro index id fact hid hfact
    obtain ⟨now, hnow, hsurvives⟩ := hwithout.kept id _
      (fun h => h.2 (List.mem_of_getElem? hid)) (hdone.shown index id fact hid hfact)
    rcases hsurvives with ⟨keep, -, rfl⟩ | ⟨_, _, _, hbinding, _⟩
    · exact hnow
    · cases hbinding
  · intro key
    rw [hwithout.hasEdge, hdone.hasEdge]
    constructor
    · rintro ⟨hdefines | hnests | ⟨hstart, hnot⟩, hgone⟩
      · exact .inl hdefines
      · exact .inr (.inl hnests)
      · exact .inr (.inr ⟨hstart, hnot, hgone⟩)
    · rintro (⟨id, hid, rfl⟩ | ⟨parent, child, hnests, rfl⟩ | ⟨hstart, hnot, hgone⟩)
      · exact ⟨.inl ⟨id, hid, rfl⟩, fun h => hold.apart h.1, fun h => h.2 hid⟩
      · have hnests' := hnests
        obtain ⟨_, _, _, _, _, hin, hat⟩ := hnests'
        exact ⟨.inr (.inl ⟨parent, child, hnests, rfl⟩), fun h => h.2 (List.mem_of_getElem? hin),
          fun h => h.2 (List.mem_of_getElem? hat)⟩
      · exact ⟨.inr (.inr ⟨hstart, hnot⟩), hgone⟩

end Symbols

end Pass

end CodeGraph
