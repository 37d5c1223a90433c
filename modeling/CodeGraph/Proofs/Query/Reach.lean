import CodeGraph.Proofs.Graph.View
import CodeGraph.Proofs.Query.EdgeTriples
import CodeGraph.Query.Reach
import Mathlib.Data.Finset.Card
import Mathlib.Data.Nat.Find

/-!
# What a search by distance reaches

The nodes that wait are in the order of their distances, and these differ by one at most. So whatever
is as near as the node whose turn it is has been seen already, and what is seen for the first time
next to it is one step further away, by no shorter way. The dependents of a node are found by the
same search against the edges, so a node reaches another at a distance exactly if it is reached from
there.
-/

namespace CodeGraph

namespace Reached

theorem le_iff {left right : Reached} : left.le right ↔
    left.distance < right.distance ∨ (left.distance = right.distance ∧ left.id ≤ right.id) := by
  simp [le]

theorem le_trans (first second third : Reached) (hfirst : first.le second)
    (hsecond : second.le third) : first.le third := by
  rw [le_iff] at *
  rcases hfirst with hfirst | ⟨hfirst, hid⟩
  · exact .inl (by omega)
  · rcases hsecond with hsecond | ⟨hsecond, hid'⟩
    · exact .inl (by omega)
    · exact .inr ⟨hfirst.trans hsecond, Nat.le_trans hid hid'⟩

theorem le_total (left right : Reached) : left.le right || right.le left := by
  rw [Bool.or_eq_true, le_iff, le_iff]
  rcases Nat.lt_trichotomy left.distance right.distance with hlt | heq | hgt
  · exact .inl (.inl hlt)
  · exact (Nat.le_total left.id right.id).imp (fun h => .inr ⟨heq, h⟩) fun h => .inr ⟨heq.symm, h⟩
  · exact .inr (.inl hgt)

end Reached

namespace Graph

/-! ### Walks -/

/-- A walk of so many steps from one node to another. -/
inductive Walks (step : NodeId → NodeId → Prop) (start : NodeId) : Nat → NodeId → Prop
  | stay : Walks step start 0 start
  | further {length : Nat} {node other : NodeId} (hwalk : Walks step start length node)
      (hstep : step node other) : Walks step start (length + 1) other

/-- The length of the shortest walks from one node to another. -/
structure Shortest (step : NodeId → NodeId → Prop) (start : NodeId) (length : Nat)
    (node : NodeId) : Prop where
  walks : Walks step start length node
  least : ∀ fewer < length, ¬ Walks step start fewer node

section Walks

variable {step : NodeId → NodeId → Prop} {start node other : NodeId} {length : Nat}

theorem Walks.before (hstep : step start node) (hwalk : Walks step node length other) :
    Walks step start (length + 1) other := by
  induction hwalk with
  | stay => exact .further .stay hstep
  | further _ hlast ih => exact .further ih hlast

/-- A walk can be gone back against the steps. -/
theorem walks_flip : Walks (flip step) start length node ↔ Walks step node length start := by
  constructor
  · intro hwalk
    induction hwalk with
    | stay => exact .stay
    | further _ hstep ih => exact .before hstep ih
  · intro hwalk
    induction hwalk with
    | stay => exact .stay
    | further _ hstep ih => exact .before hstep ih

theorem shortest_flip :
    Shortest (flip step) start length node ↔ Shortest step node length start :=
  ⟨fun h => ⟨walks_flip.1 h.walks, fun fewer hfewer hwalk =>
      h.least fewer hfewer (walks_flip.2 hwalk)⟩,
    fun h => ⟨walks_flip.2 h.walks, fun fewer hfewer hwalk =>
      h.least fewer hfewer (walks_flip.1 hwalk)⟩⟩

theorem Shortest.eq {length' : Nat} (hfirst : Shortest step start length node)
    (hsecond : Shortest step start length' node) : length = length' := by
  apply Nat.le_antisymm
  · by_contra hlt
    exact hfirst.least length' (Nat.lt_of_not_le hlt) hsecond.walks
  · by_contra hlt
    exact hsecond.least length (Nat.lt_of_not_le hlt) hfirst.walks

theorem Walks.exists_shortest (hwalk : Walks step start length node) :
    ∃ least ≤ length, Shortest step start least node := by
  classical
  have hsome : ∃ length, Walks step start length node := ⟨length, hwalk⟩
  exact ⟨Nat.find hsome, Nat.find_min' hsome hwalk, Nat.find_spec hsome,
    fun fewer hfewer => Nat.find_min hsome hfewer⟩

theorem shortest_start : Shortest step start 0 start :=
  ⟨.stay, fun _ hfewer => absurd hfewer (Nat.not_lt_zero _)⟩

theorem Shortest.pos_iff (hshortest : Shortest step start length node) :
    0 < length ↔ node ≠ start := by
  constructor
  · rintro hpos rfl
    exact Nat.ne_of_gt hpos (hshortest.eq shortest_start)
  · intro hne
    apply Nat.pos_of_ne_zero
    rintro rfl
    obtain ⟨⟨⟩, -⟩ := hshortest
    exact hne rfl

end Walks

/-! ### The search -/

/-- A search on its way. What was seen is at a known distance, what waits is in the order of its
distances, and what does not wait any more has been gone on from. -/
structure Searching (step : NodeId → NodeId → Prop) (start : NodeId) (depth : Nat)
    (seen : List NodeId) (waiting : List Reached) : Prop where
  begun : start ∈ seen
  shortest : ∀ entry ∈ waiting, Shortest step start entry.distance entry.id
  near : ∀ entry ∈ waiting, entry.distance ≤ depth
  ordered : waiting.Pairwise fun left right =>
    left.distance ≤ right.distance ∧ right.distance ≤ left.distance + 1
  left : ∀ node ∈ seen, (∀ entry ∈ waiting, entry.id ≠ node) → ∀ length < depth,
    Shortest step start length node → ∀ other, step node other → other ∈ seen

theorem searching_start (step : NodeId → NodeId → Prop) (start : NodeId) (depth : Nat) :
    Searching step start depth [start] [⟨0, start⟩] where
  begun := List.mem_singleton_self start
  shortest := by simpa using shortest_start
  near := by simp
  ordered := List.pairwise_singleton _ _
  left := by simp

/-- The nodes of a list that were not seen. -/
def unvisited (nodes seen : List NodeId) : Nat :=
  (nodes.toFinset \ seen.toFinset).card

theorem unvisited_le (nodes seen : List NodeId) : unvisited nodes seen ≤ nodes.length :=
  (Finset.card_le_card Finset.sdiff_subset).trans (List.toFinset_card_le nodes)

theorem unvisited_append {nodes seen fresh : List NodeId} (hnodes : fresh ⊆ nodes)
    (hfresh : ∀ node ∈ fresh, node ∉ seen) (hnodup : fresh.Nodup) :
    unvisited nodes (seen ++ fresh) + fresh.length = unvisited nodes seen := by
  have hsub : fresh.toFinset ⊆ nodes.toFinset \ seen.toFinset := fun node hnode => by
    have hmem := List.mem_toFinset.1 hnode
    exact Finset.mem_sdiff.2 ⟨List.mem_toFinset.2 (hnodes hmem),
      fun hseen => hfresh node hmem (List.mem_toFinset.1 hseen)⟩
  calc unvisited nodes (seen ++ fresh) + fresh.length
      = ((nodes.toFinset \ seen.toFinset) \ fresh.toFinset).card + fresh.toFinset.card := by
        rw [unvisited, List.toFinset_append, ← Finset.sup_eq_union, sdiff_sdiff_left,
          List.toFinset_card_of_nodup hnodup]
    _ = unvisited nodes seen := Finset.card_sdiff_add_card_eq_card hsub

section Searching

variable {step : NodeId → NodeId → Prop} {start : NodeId} {depth : Nat} {seen fresh : List NodeId}
  {current : Reached} {waiting : List Reached}

/-- Whatever is as near as all that waits has been seen. By induction on the walk: the node before is
nearer than all that waits, so it has had its turn. -/
theorem Searching.mem_seen (hsearching : Searching step start depth seen waiting) {limit : Nat}
    (hlimit : limit ≤ depth) (hwaiting : ∀ entry ∈ waiting, limit ≤ entry.distance) {length : Nat}
    {node : NodeId} (hwalk : Walks step start length node) (hlength : length ≤ limit) :
    node ∈ seen := by
  induction hwalk with
  | stay => exact hsearching.begun
  | @further length node other hwalk hstep ih =>
    obtain ⟨least, hleast, hshortest⟩ := hwalk.exists_shortest
    refine hsearching.left node (ih (by omega)) (fun entry hentry hid => ?_) least (by omega)
      hshortest other hstep
    have heq := (hsearching.shortest entry hentry).eq (hid ▸ hshortest)
    have hfar := hwaiting entry hentry
    omega

/-- What is seen for the first time next to the node whose turn it is. -/
theorem Searching.shortest_fresh
    (hsearching : Searching step start depth seen (current :: waiting)) {node : NodeId}
    (hstep : step current.id node) (hfresh : node ∉ seen) :
    Shortest step start (current.distance + 1) node := by
  refine ⟨.further (hsearching.shortest current List.mem_cons_self).walks hstep,
    fun fewer hfewer hwalk => hfresh ?_⟩
  refine hsearching.mem_seen (hsearching.near current List.mem_cons_self) (fun entry hentry => ?_)
    hwalk (Nat.le_of_lt_succ hfewer)
  rcases List.mem_cons.1 hentry with rfl | hentry
  · exact Nat.le_refl _
  · exact (List.rel_of_pairwise_cons hsearching.ordered hentry).1

/-- A node at the greatest distance has its turn. -/
theorem Searching.pass (hsearching : Searching step start depth seen (current :: waiting))
    (hdepth : current.distance = depth) : Searching step start depth seen waiting where
  begun := hsearching.begun
  shortest := fun entry hentry => hsearching.shortest entry (List.mem_cons_of_mem _ hentry)
  near := fun entry hentry => hsearching.near entry (List.mem_cons_of_mem _ hentry)
  ordered := hsearching.ordered.of_cons
  left := by
    intro node hnode hwaiting length hlength hshortest
    refine hsearching.left node hnode (fun entry hentry => ?_) length hlength hshortest
    rcases List.mem_cons.1 hentry with rfl | hentry
    · rintro rfl
      have heq := (hsearching.shortest entry List.mem_cons_self).eq hshortest
      omega
    · exact hwaiting entry hentry

/-- A node has its turn, and what is next to it waits from now on. -/
theorem Searching.turn (hsearching : Searching step start depth seen (current :: waiting))
    (hdepth : current.distance ≠ depth)
    (hfresh : ∀ node, node ∈ fresh ↔ step current.id node ∧ node ∉ seen) :
    Searching step start depth (seen ++ fresh)
      (waiting ++ fresh.map (Reached.mk (current.distance + 1))) := by
  have hnear := hsearching.near current List.mem_cons_self
  have hbehind := fun entry hentry => List.rel_of_pairwise_cons hsearching.ordered
    (show entry ∈ waiting from hentry)
  refine ⟨List.mem_append_left _ hsearching.begun, fun entry hentry => ?_, fun entry hentry => ?_, ?_,
    fun node hnode hwaiting length hlength hshortest other hstep => ?_⟩
  · rcases List.mem_append.1 hentry with hentry | hentry
    · exact hsearching.shortest entry (List.mem_cons_of_mem _ hentry)
    · obtain ⟨node, hnode, rfl⟩ := List.mem_map.1 hentry
      obtain ⟨hstep, hnew⟩ := (hfresh node).1 hnode
      exact hsearching.shortest_fresh hstep hnew
  · rcases List.mem_append.1 hentry with hentry | hentry
    · exact hsearching.near entry (List.mem_cons_of_mem _ hentry)
    · obtain ⟨node, -, rfl⟩ := List.mem_map.1 hentry
      dsimp only
      omega
  · refine List.pairwise_append.2 ⟨hsearching.ordered.of_cons, ?_, fun left hleft right hright => ?_⟩
    · exact List.pairwise_map.2 (List.pairwise_of_forall fun _ _ =>
        ⟨Nat.le_refl _, Nat.le_succ _⟩)
    · obtain ⟨node, -, rfl⟩ := List.mem_map.1 hright
      have hleft := hbehind left hleft
      dsimp only
      omega
  · rw [List.mem_append, hfresh]
    by_cases hseen : other ∈ seen
    · exact .inl hseen
    by_cases hcurrent : node = current.id
    · exact .inr ⟨hcurrent ▸ hstep, hseen⟩
    · -- a node that was seen in this turn waits now
      refine .inl (hsearching.left node ?_ (fun entry hentry => ?_) length hlength hshortest other
        hstep)
      · refine (List.mem_append.1 hnode).resolve_right fun hnew => ?_
        exact hwaiting ⟨current.distance + 1, node⟩
          (List.mem_append_right _ (List.mem_map_of_mem hnew)) rfl
      · rcases List.mem_cons.1 hentry with rfl | hentry
        · exact Ne.symm hcurrent
        · exact hwaiting entry (List.mem_append_left _ hentry)

end Searching

section Visit

variable {next : NodeId → List NodeId} {step : NodeId → NodeId → Prop} {start : NodeId}
  {nodes : List NodeId} {depth : Nat}

theorem mem_fresh (hnext : ∀ node other, other ∈ next node ↔ step node other) (current : NodeId)
    (seen : List NodeId) (node : NodeId) :
    node ∈ ((next current).filter (· ∉ seen)).eraseDups ↔ step current node ∧ node ∉ seen := by
  rw [List.mem_eraseDups, List.mem_filter, hnext, decide_eq_true_eq]

/-- There is a turn for each node that waits and for each that was not seen. -/
theorem turns_left (hnodes : ∀ node, next node ⊆ nodes) (current : Reached) {seen : List NodeId}
    {waiting : List Reached} {turns : Nat}
    (hturns : unvisited nodes seen + (waiting.length + 1) ≤ turns + 1) :
    let fresh := ((next current.id).filter (· ∉ seen)).eraseDups
    unvisited nodes (seen ++ fresh) +
      (waiting ++ fresh.map (Reached.mk (current.distance + 1))).length ≤ turns := by
  intro fresh
  have hmem : ∀ node ∈ fresh, node ∈ next current.id ∧ node ∉ seen := fun node hnode => by
    simpa [fresh] using hnode
  have hcount := unvisited_append (fun node hnode => hnodes current.id (hmem node hnode).1)
    (fun node hnode => (hmem node hnode).2) (nodup_eraseDups _)
  rw [List.length_append, List.length_map]
  omega

/-- **A search reaches what was not seen, by the shortest way.** By induction on the turns. -/
theorem mem_visit (hnext : ∀ node other, other ∈ next node ↔ step node other)
    (hnodes : ∀ node, next node ⊆ nodes) {turns : Nat} {seen : List NodeId} {waiting : List Reached}
    (hsearching : Searching step start depth seen waiting)
    (hturns : unvisited nodes seen + waiting.length ≤ turns) {length : Nat} {node : NodeId} :
    ⟨length, node⟩ ∈ visit next depth turns seen waiting ↔
      node ∉ seen ∧ length ≤ depth ∧ Shortest step start length node := by
  -- where nothing waits all nodes within reach were seen
  have hdone : ∀ seen, Searching step start depth seen [] →
      ¬ (node ∉ seen ∧ length ≤ depth ∧ Shortest step start length node) := by
    rintro seen hsearching ⟨hnew, hlength, hshortest⟩
    exact hnew (hsearching.mem_seen (Nat.le_refl depth) (by simp) hshortest.walks hlength)
  induction turns generalizing seen waiting with
  | zero =>
    obtain rfl : waiting = [] := List.length_eq_zero_iff.1 (by omega)
    exact iff_of_false (by simp [visit]) (hdone seen hsearching)
  | succ turns ih =>
    cases waiting with
    | nil => exact iff_of_false (by simp [visit]) (hdone seen hsearching)
    | cons current waiting =>
      rw [visit]
      split
      · rename_i hdepth
        exact ih (hsearching.pass hdepth) (by rw [List.length_cons] at hturns; omega)
      · rename_i hdepth
        have hleft := turns_left hnodes current hturns
        have hfresh := mem_fresh hnext current.id seen
        generalize ((next current.id).filter (· ∉ seen)).eraseDups = fresh at hfresh hleft
        dsimp only at hleft ⊢
        have hlater := ih (hsearching.turn hdepth hfresh) hleft
        refine List.mem_append.trans ((or_congr_right hlater).trans ?_)
        rw [List.mem_append]
        have hnear := hsearching.near current List.mem_cons_self
        constructor
        · rintro (hreached | ⟨hnew, hrest⟩)
          · obtain ⟨other, hother, heq⟩ := List.mem_map.1 hreached
            obtain ⟨rfl, rfl⟩ := Reached.mk.inj heq
            obtain ⟨hstep, hnew⟩ := (hfresh other).1 hother
            exact ⟨hnew, by omega, hsearching.shortest_fresh hstep hnew⟩
          · exact ⟨fun hseen => hnew (.inl hseen), hrest⟩
        · rintro ⟨hnew, hlength, hshortest⟩
          by_cases hnode : node ∈ fresh
          · have heq := hshortest.eq (hsearching.shortest_fresh ((hfresh node).1 hnode).1 hnew)
            exact .inl (heq ▸ List.mem_map_of_mem hnode)
          · exact .inr ⟨fun h => h.elim hnew hnode, hlength, hshortest⟩

/-- No node is reached twice. -/
theorem nodup_visit (hnext : ∀ node other, other ∈ next node ↔ step node other)
    (hnodes : ∀ node, next node ⊆ nodes) {turns : Nat} {seen : List NodeId} {waiting : List Reached}
    (hsearching : Searching step start depth seen waiting)
    (hturns : unvisited nodes seen + waiting.length ≤ turns) :
    ((visit next depth turns seen waiting).map Reached.id).Nodup := by
  induction turns generalizing seen waiting with
  | zero => simp [visit]
  | succ turns ih =>
    cases waiting with
    | nil => simp [visit]
    | cons current waiting =>
      rw [visit]
      split
      · rename_i hdepth
        exact ih (hsearching.pass hdepth) (by rw [List.length_cons] at hturns; omega)
      · rename_i hdepth
        have hleft := turns_left hnodes current hturns
        have hfresh := mem_fresh hnext current.id seen
        have hnodup := nodup_eraseDups ((next current.id).filter (· ∉ seen))
        generalize ((next current.id).filter (· ∉ seen)).eraseDups = fresh at hfresh hleft hnodup
        have hlater := hsearching.turn hdepth hfresh
        dsimp only at hleft ⊢
        rw [List.map_append, List.map_map]
        refine List.nodup_append'.2 ⟨by simpa [Function.comp_def] using hnodup, ih hlater hleft, ?_⟩
        intro node hnode hagain
        obtain ⟨other, hother, rfl⟩ := List.mem_map.1 hnode
        obtain ⟨⟨length, again⟩, hvisit, heq⟩ := List.mem_map.1 hagain
        obtain rfl : again = other := heq
        exact ((mem_visit hnext hnodes hlater hleft).1 hvisit).1 (List.mem_append_right _ hother)

end Visit

/-! ### Dependencies and dependents -/

/-- One node imports the other or refers to it. -/
def DependsOn (graph : Graph) (source target : NodeId) : Prop :=
  graph.hasEdge ⟨source, target, .imports⟩ ∨ graph.hasEdge ⟨source, target, .references⟩

/-- What is within reach of a node by the shortest way, each node once, the nearest first and those
at one distance by their ids. -/
structure ListsNearest (step : NodeId → NodeId → Prop) (start : NodeId) (depth : Nat)
    (listed : List Reached) : Prop where
  mem_iff : ∀ length node, ⟨length, node⟩ ∈ listed ↔
    node ≠ start ∧ 1 ≤ length ∧ length ≤ depth ∧ Shortest step start length node
  sorted : listed.Pairwise fun left right => left.distance < right.distance ∨
    (left.distance = right.distance ∧ left.id < right.id)
  once : (listed.map Reached.id).Nodup

section Reach

variable {graph : Graph} {start : NodeId} {depth : Nat}

theorem dependsOn_iff {source target : NodeId} : graph.DependsOn source target ↔
    ∃ edge ∈ graph.edges, edge.isDependency ∧ edge.source = source ∧ edge.target = target := by
  rw [DependsOn, hasEdge_iff, hasEdge_iff]
  constructor
  · rintro (⟨edge, hedge, hkey⟩ | ⟨edge, hedge, hkey⟩) <;>
    · obtain ⟨hsource, htarget, hkind⟩ := EdgeKey.mk.inj hkey
      exact ⟨edge, hedge, by simp [Edge.isDependency, hkind], hsource, htarget⟩
  · rintro ⟨edge, hedge, hdependency, rfl, rfl⟩
    rw [Edge.isDependency, Bool.or_eq_true, decide_eq_true_eq, decide_eq_true_eq] at hdependency
    rcases hdependency with hkind | hkind
    · exact .inl ⟨edge, hedge, by rw [Edge.key, hkind]⟩
    · exact .inr ⟨edge, hedge, by rw [Edge.key, hkind]⟩

theorem mem_dependencies (source target : NodeId) :
    target ∈ graph.dependencies source ↔ graph.DependsOn source target := by
  rw [dependsOn_iff]
  simp only [dependencies, edgesFrom, List.mem_map, List.mem_filter, decide_eq_true_eq]
  constructor
  · rintro ⟨edge, ⟨⟨hedge, hsource⟩, hdependency⟩, htarget⟩
    exact ⟨edge, hedge, hdependency, hsource, htarget⟩
  · rintro ⟨edge, hedge, hdependency, hsource, htarget⟩
    exact ⟨edge, ⟨⟨hedge, hsource⟩, hdependency⟩, htarget⟩

theorem mem_dependents (target source : NodeId) :
    source ∈ graph.dependents target ↔ flip graph.DependsOn target source := by
  rw [flip, dependsOn_iff]
  simp only [dependents, edgesTo, List.mem_map, List.mem_filter, decide_eq_true_eq]
  constructor
  · rintro ⟨edge, ⟨⟨hedge, htarget⟩, hdependency⟩, hsource⟩
    exact ⟨edge, hedge, hdependency, hsource, htarget⟩
  · rintro ⟨edge, hedge, hdependency, hsource, htarget⟩
    exact ⟨edge, ⟨⟨hedge, htarget⟩, hdependency⟩, hsource⟩

/-- **A search lists the nodes within reach**, given what its steps are and the nodes that they can
lead to. -/
theorem listsNearest_reachFrom {next : NodeId → List NodeId} {step : NodeId → NodeId → Prop}
    {nodes : List NodeId} (hnext : ∀ node other, other ∈ next node ↔ step node other)
    (hnodes : ∀ node, next node ⊆ nodes) (hedges : nodes.length ≤ graph.edges.length)
    (hlive : graph.contains start) :
    ListsNearest step start depth (graph.reachFrom next start depth) := by
  have hsearching := searching_start step start depth
  have hturns : unvisited nodes [start] + [(⟨0, start⟩ : Reached)].length ≤
      graph.edges.length + 1 := Nat.succ_le_succ ((unvisited_le nodes _).trans hedges)
  have honce := nodup_visit hnext hnodes hsearching hturns
  rw [reachFrom, if_pos hlive]
  generalize hfound : visit next depth (graph.edges.length + 1) [start] [⟨0, start⟩] = found at honce
  have hperm := List.mergeSort_perm found Reached.le
  have honce : ((found.mergeSort Reached.le).map Reached.id).Nodup :=
    (hperm.map Reached.id).nodup_iff.2 honce
  refine ⟨fun length node => ?_, ?_, honce⟩
  · rw [List.mem_mergeSort, ← hfound, mem_visit hnext hnodes hsearching hturns, List.mem_singleton]
    constructor
    · rintro ⟨hne, hlength, hshortest⟩
      exact ⟨hne, hshortest.pos_iff.2 hne, hlength, hshortest⟩
    · rintro ⟨hne, -, hlength, hshortest⟩
      exact ⟨hne, hlength, hshortest⟩
  · have hsorted : (found.mergeSort Reached.le).Pairwise fun left right => left.le right :=
      List.pairwise_mergeSort Reached.le_trans Reached.le_total found
    refine (hsorted.and (List.pairwise_map.1 honce)).imp fun hboth => ?_
    obtain ⟨hle, hne⟩ := hboth
    rw [Reached.le_iff] at hle
    exact hle.imp_right fun h => ⟨h.1, Nat.lt_of_le_of_ne h.2 hne⟩

/-- **Dependencies are listed by their distance.** -/
theorem listsNearest_dependenciesOf (hlive : graph.contains start) (depth : Nat) :
    ListsNearest graph.DependsOn start depth (graph.dependenciesOf start depth) :=
  listsNearest_reachFrom mem_dependencies
    (fun _ => ((List.filter_sublist.trans List.filter_sublist).map Edge.target).subset)
    (Nat.le_of_eq (List.length_map _)) hlive

/-- **Dependents are listed by their distance.** -/
theorem listsNearest_blastRadius (hlive : graph.contains start) (depth : Nat) :
    ListsNearest (flip graph.DependsOn) start depth (graph.blastRadius start depth) :=
  listsNearest_reachFrom mem_dependents
    (fun _ => ((List.filter_sublist.trans List.filter_sublist).map Edge.source).subset)
    (Nat.le_of_eq (List.length_map _)) hlive

/-- **A node depends on another at a distance exactly if that has it among its dependents there.** -/
theorem mem_dependenciesOf_iff {node : NodeId} (hstart : graph.contains start)
    (hnode : graph.contains node) {length : Nat} :
    ⟨length, node⟩ ∈ graph.dependenciesOf start depth ↔
      ⟨length, start⟩ ∈ graph.blastRadius node depth := by
  rw [(listsNearest_dependenciesOf hstart depth).mem_iff,
    (listsNearest_blastRadius hnode depth).mem_iff,
    shortest_flip, ne_comm]

/-- Walks along edges lead to nodes that are there. -/
theorem Sound.contains_of_walks (hsound : graph.Sound) (hstart : graph.contains start) {length : Nat}
    {node : NodeId} {step : NodeId → NodeId → Prop}
    (hstep : ∀ node other, step node other → graph.DependsOn node other ∨ graph.DependsOn other node)
    (hwalk : Walks step start length node) : graph.contains node := by
  cases hwalk with
  | stay => exact hstart
  | further _ hlast =>
    rcases hstep _ _ hlast with (hedge | hedge) | (hedge | hedge)
    · exact (hsound.contains_of_hasEdge hedge).2
    · exact (hsound.contains_of_hasEdge hedge).2
    · exact (hsound.contains_of_hasEdge hedge).1
    · exact (hsound.contains_of_hasEdge hedge).1

end Reach

end Graph

end CodeGraph
