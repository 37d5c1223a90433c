import CodeGraph.Graph.Arena
import CodeGraph.Proofs.Graph.Slots

/-!
# Arenas kept in step

Every node of a sound arena lists exactly the places of the edges at either end of it, each once, and
no edge joins a place without a node. Each operation is described by what is stored at every place
afterwards, and keeps the arena sound.
-/

namespace CodeGraph

/-! ### Cells -/

namespace Cell

variable {cell : Cell} {places : List Nat}

/-- The cell without the edges at those places. -/
def unlinkAll (cell : Cell) (places : List Nat) : Cell :=
  places.foldl unlink cell

theorem node_unlinkAll (cell : Cell) (places : List Nat) :
    (cell.unlinkAll places).node = cell.node := by
  induction places generalizing cell with
  | nil => rfl
  | cons place rest ih => exact ih (cell.unlink place)

theorem leaving_unlinkAll (cell : Cell) (places : List Nat) :
    (cell.unlinkAll places).leaving = cell.leaving.filter (· ∉ places) := by
  induction places generalizing cell with
  | nil => simp [unlinkAll]
  | cons place rest ih =>
    refine (ih (cell.unlink place)).trans ?_
    rw [unlink, List.filter_filter]
    exact List.filter_congr fun other _ => by simp [Bool.and_comm]

theorem entering_unlinkAll (cell : Cell) (places : List Nat) :
    (cell.unlinkAll places).entering = cell.entering.filter (· ∉ places) := by
  induction places generalizing cell with
  | nil => simp [unlinkAll]
  | cons place rest ih =>
    refine (ih (cell.unlink place)).trans ?_
    rw [unlink, List.filter_filter]
    exact List.filter_congr fun other _ => by simp [Bool.and_comm]

/-- Nothing is taken off lists that hold none of the places. -/
theorem unlink_eq_self {place : Nat} (hleaving : place ∉ cell.leaving)
    (hentering : place ∉ cell.entering) : cell.unlink place = cell := by
  have hkept : ∀ list : List Nat, place ∉ list → list.filter (· ≠ place) = list := by
    intro list hnot
    refine List.filter_eq_self.2 fun other hother => decide_eq_true ?_
    rintro rfl
    exact hnot hother
  rw [unlink, hkept _ hleaving, hkept _ hentering]

end Cell

namespace Arena

variable {arena after : Arena} {place : Nat} {cell : Cell} {link : Link}

/-! ### Lists of edges -/

/-- Every node lists the edges that it stands at one end of, each of them once. -/
def Lists (arena : Arena) (list : Cell → List Nat) (stand : Link → Nat) : Prop :=
  ∀ place places, arena.listAt list place = some places → places.Nodup ∧
    ∀ edge, edge ∈ places ↔ ∃ link, arena.links.get? edge = some link ∧ stand link = place

section Lists

variable {list : Cell → List Nat} {stand : Link → Nat}

theorem listAt_eq (hcell : arena.cells.get? place = some cell) :
    arena.listAt list place = some (list cell) := by
  rw [listAt, hcell, Option.map_some]

theorem edgesAt_eq_nil (hcell : arena.cells.get? place = none) :
    arena.edgesAt list place = [] := by
  rw [edgesAt, listAt, hcell]
  rfl

theorem node?_eq (hcell : arena.cells.get? place = some cell) :
    arena.node? place = some cell.node := by
  rw [node?, hcell, Option.map_some]

theorem edge?_eq {edge : Nat} (hlink : arena.links.get? edge = some link) :
    arena.edge? edge = some link.edge := by
  rw [edge?, hlink, Option.map_some]

theorem Lists.live (hlists : arena.Lists list stand) {places : List Nat}
    (hplaces : arena.listAt list place = some places) {edge : Nat} (hedge : edge ∈ places) :
    ∃ link, arena.links.get? edge = some link := by
  obtain ⟨link, hlink, -⟩ := ((hlists place places hplaces).2 edge).1 hedge
  exact ⟨link, hlink⟩

/-- A new edge is listed first by the node at its end. -/
theorem Lists.add (hlists : arena.Lists list stand) {edge : Nat}
    (hnew : arena.links.get? edge = none)
    (hlinks : ∀ other, after.links.get? other =
      if other = edge then some link else arena.links.get? other)
    (hcells : ∀ place, after.listAt list place = (arena.listAt list place).map fun places =>
      if place = stand link then edge :: places else places) :
    after.Lists list stand := by
  intro place places hplaces
  rw [hcells, Option.map_eq_some_iff] at hplaces
  obtain ⟨old, hold, rfl⟩ := hplaces
  obtain ⟨hnodup, hmem⟩ := hlists place old hold
  have hfresh : edge ∉ old := by
    intro hedge
    obtain ⟨found, hfound⟩ := hlists.live hold hedge
    cases hnew.symm.trans hfound
  refine ⟨?_, fun other => ?_⟩
  · split
    · exact List.nodup_cons.2 ⟨hfresh, hnodup⟩
    · exact hnodup
  · have hlisted : other ∈ (if place = stand link then edge :: old else old) ↔
        place = stand link ∧ other = edge ∨ other ∈ old := by
      split
      · rename_i hplace
        rw [List.mem_cons, and_iff_right hplace]
      · rename_i hplace
        simp [hplace]
    rw [hlisted, hmem, hlinks]
    by_cases hother : other = edge
    · subst hother
      simp [hnew, eq_comm]
    · simp [hother]

/-- An edge that goes is listed no more. -/
theorem Lists.remove (hlists : arena.Lists list stand) {edge : Nat}
    (hlinks : ∀ other, after.links.get? other =
      if other = edge then none else arena.links.get? other)
    (hcells : ∀ place, after.listAt list place =
      (arena.listAt list place).map fun places => places.filter (· ≠ edge)) :
    after.Lists list stand := by
  intro place places hplaces
  rw [hcells, Option.map_eq_some_iff] at hplaces
  obtain ⟨old, hold, rfl⟩ := hplaces
  obtain ⟨hnodup, hmem⟩ := hlists place old hold
  refine ⟨hnodup.filter _, fun other => ?_⟩
  rw [List.mem_filter, hmem, hlinks]
  by_cases hother : other = edge <;> simp [hother]

/-- What becomes of single edges becomes of the lists of them. -/
theorem Lists.filterMap_edge? (hlists : arena.Lists list stand) {change : Edge → Option Edge}
    (hedge : ∀ edge link, arena.links.get? edge = some link →
      after.edge? edge = change link.edge) (place : Nat) :
    ((arena.listAt list place).getD []).filterMap after.edge? =
      (arena.edgesAt list place).filterMap change := by
  rw [edgesAt, List.filterMap_filterMap]
  refine List.filterMap_congr fun edge hmem => ?_
  cases hplaces : arena.listAt list place with
  | none =>
    rw [hplaces] at hmem
    cases hmem
  | some places =>
    rw [hplaces] at hmem
    obtain ⟨link, hlink⟩ := hlists.live hplaces hmem
    rw [hedge edge link hlink, edge?_eq hlink, Option.bind_some]

/-- Where the lists stay, their edges become what single edges become. -/
theorem Lists.edgesAt (hlists : arena.Lists list stand) {change : Edge → Option Edge}
    (hedge : ∀ edge link, arena.links.get? edge = some link →
      after.edge? edge = change link.edge)
    (hcells : after.listAt list place = arena.listAt list place) :
    after.edgesAt list place = (arena.edgesAt list place).filterMap change := by
  rw [Arena.edgesAt, hcells, hlists.filterMap_edge? hedge]

/-- A new edge comes first among those of the node at its end. -/
theorem Lists.edgesAt_add (hlists : arena.Lists list stand) {edge : Nat}
    (hnew : arena.links.get? edge = none)
    (hlinks : ∀ other, after.links.get? other =
      if other = edge then some link else arena.links.get? other)
    (hcells : after.listAt list place = (arena.listAt list place).map fun places =>
      if place = stand link then edge :: places else places)
    (hstand : ∃ cell, arena.cells.get? (stand link) = some cell) :
    after.edgesAt list place =
      if place = stand link then link.edge :: arena.edgesAt list place
      else arena.edgesAt list place := by
  have hedge : ∀ other found, arena.links.get? other = some found →
      after.edge? other = some found.edge := by
    intro other found hfound
    rw [edge?, hlinks, if_neg, hfound, Option.map_some]
    rintro rfl
    cases hnew.symm.trans hfound
  have hrest := hlists.filterMap_edge? hedge place
  rw [List.filterMap_some] at hrest
  rw [Arena.edgesAt, hcells]
  split
  · rename_i hplace
    obtain ⟨cell, hcell⟩ := hstand
    rw [hplace, listAt_eq hcell] at hrest ⊢
    rw [Option.map_some, Option.getD_some, List.filterMap_cons, edge?, hlinks, if_pos rfl,
      Option.map_some]
    exact congrArg _ hrest
  · rw [← hrest, Option.map_id']

/-- Where places are taken off the lists whose edges are gone, no other edge is lost. -/
theorem Lists.edgesAt_filter (hlists : arena.Lists list stand) {keep : Edge → Bool}
    {gone : List Nat} (hlinks : ∀ other, after.links.get? other =
      if other ∈ gone then none else arena.links.get? other)
    (hkeep : ∀ edge link, arena.links.get? edge = some link →
      (keep link.edge = true ↔ edge ∉ gone))
    (hcells : after.listAt list place =
      (arena.listAt list place).map fun places => places.filter (· ∉ gone)) :
    after.edgesAt list place = (arena.edgesAt list place).filter keep := by
  have hedge : ∀ edge link, arena.links.get? edge = some link →
      after.edge? edge = Option.guard keep link.edge := by
    intro edge link hlink
    rw [edge?, hlinks, Option.guard]
    split
    · rename_i hgone
      rw [if_neg fun hkept => (hkeep edge link hlink).1 hkept hgone]
      rfl
    · rename_i hnot
      rw [if_pos ((hkeep edge link hlink).2 hnot), hlink]
      rfl
  rw [← List.filterMap_eq_filter, ← hlists.filterMap_edge? hedge, Arena.edgesAt, hcells]
  cases arena.listAt list place with
  | none => rfl
  | some places =>
    rw [Option.map_some, Option.getD_some, Option.getD_some, List.filterMap_filter]
    refine List.filterMap_congr fun edge _ => ?_
    split
    · rfl
    · rename_i hmem
      rw [edge?, hlinks, if_pos (by simpa using hmem)]
      rfl

end Lists

/-! ### Soundness -/

structure Sound (arena : Arena) : Prop where
  cells : arena.cells.Accounted
  links : arena.links.Accounted
  leaving : arena.Lists Cell.leaving Link.source
  entering : arena.Lists Cell.entering Link.target
  joined : ∀ edge link, arena.links.get? edge = some link →
    (∃ cell, arena.cells.get? link.source = some cell) ∧
      ∃ cell, arena.cells.get? link.target = some cell

theorem sound_empty : ({} : Arena).Sound where
  cells := Slots.accounted_empty
  links := Slots.accounted_empty
  leaving := fun _ _ hplaces => by cases hplaces
  entering := fun _ _ hplaces => by cases hplaces
  joined := fun _ _ hlink => by cases hlink

/-- The ids of the nodes in their places. -/
def ids (arena : Arena) : Slots NodeId :=
  arena.cells.map fun cell => cell.node.id

/-- The keys of the edges in their places. -/
def keys (arena : Arena) : Slots EdgeKey :=
  arena.links.map fun link => link.edge.key

theorem get?_ids {id : NodeId} :
    arena.ids.get? place = some id ↔
      ∃ cell, arena.cells.get? place = some cell ∧ cell.node.id = id := by
  rw [ids, Slots.get?_map, Option.map_eq_some_iff]

theorem get?_keys {key : EdgeKey} :
    arena.keys.get? place = some key ↔
      ∃ link, arena.links.get? place = some link ∧ link.edge.key = key := by
  rw [keys, Slots.get?_map, Option.map_eq_some_iff]

/-! ### Nodes -/

theorem ids_addNode (arena : Arena) (node : Node) :
    (arena.addNode node).2.ids = arena.ids.insert node.id :=
  Slots.map_insert _ _ _

theorem get?_ids_addNode (haccounted : arena.cells.Accounted) (node : Node) (place : Nat) :
    (arena.addNode node).2.ids.get? place =
      if place = arena.cells.next then some node.id else arena.ids.get? place := by
  rw [ids, Slots.get?_map, addNode, haccounted.get?_insert, ids, Slots.get?_map]
  split <;> rfl

theorem ids_setNode {node : Node} (hid : ∀ old, arena.node? place = some old → old.id = node.id) :
    (arena.setNode place node).ids = arena.ids :=
  Slots.map_modify fun _ hcell => (hid _ (node?_eq hcell)).symm

theorem listAt_addNode (haccounted : arena.cells.Accounted) (list : Cell → List Nat) (node : Node)
    (place : Nat) : (arena.addNode node).2.listAt list place =
      if place = arena.cells.next then some (list { node }) else arena.listAt list place := by
  rw [listAt, addNode, haccounted.get?_insert]
  split <;> rfl

theorem listAt_setNode (arena : Arena) (place : Nat) {list : Cell → List Nat} {node : Node}
    (hlist : ∀ cell, list (cell.setNode node) = list cell) (other : Nat) :
    (arena.setNode place node).listAt list other = arena.listAt list other := by
  rw [listAt, setNode, Slots.get?_modify, listAt]
  split
  · rw [Option.map_map]
    exact Option.map_congr fun cell _ => hlist cell
  · rfl

/-- A node that is new has no edges, and the others have theirs. -/
theorem edgesAt_addNode (haccounted : arena.cells.Accounted) {list : Cell → List Nat} {node : Node}
    (hempty : list { node } = []) (place : Nat) :
    (arena.addNode node).2.edgesAt list place = arena.edgesAt list place := by
  rw [edgesAt, edgesAt, listAt_addNode haccounted]
  split
  · rename_i hplace
    rw [hempty, listAt, hplace, haccounted.get?_next]
    rfl
  · rfl

theorem edgesAt_setNode (arena : Arena) (place : Nat) {list : Cell → List Nat} {node : Node}
    (hlist : ∀ cell, list (cell.setNode node) = list cell) (other : Nat) :
    (arena.setNode place node).edgesAt list other = arena.edgesAt list other := by
  rw [edgesAt, listAt_setNode arena place hlist]
  rfl

theorem Sound.addNode (hsound : arena.Sound) (node : Node) : (arena.addNode node).2.Sound := by
  have hcells := hsound.cells.get?_insert { node }
  have hlists : ∀ (list : Cell → List Nat) (stand : Link → Nat), list { node } = [] →
      (∀ edge link, arena.links.get? edge = some link →
        ∃ cell, arena.cells.get? (stand link) = some cell) →
      arena.Lists list stand → (arena.addNode node).2.Lists list stand := by
    intro list stand hempty hjoined hlists place places hplaces
    rw [listAt_addNode hsound.cells, hempty] at hplaces
    split at hplaces
    · rename_i hplace
      obtain rfl := Option.some.inj hplaces
      refine ⟨List.nodup_nil, fun edge => iff_of_false List.not_mem_nil ?_⟩
      rintro ⟨link, hlink, hstand⟩
      obtain ⟨found, hfound⟩ := hjoined edge link hlink
      exact hsound.cells.ne_next hfound (hstand.trans hplace)
    · exact hlists place places hplaces
  refine ⟨hsound.cells.insert _, hsound.links,
    hlists _ _ rfl (fun edge link hlink => (hsound.joined edge link hlink).1) hsound.leaving,
    hlists _ _ rfl (fun edge link hlink => (hsound.joined edge link hlink).2) hsound.entering,
    fun edge link hlink => ?_⟩
  have hlive : ∀ place, (∃ cell, arena.cells.get? place = some cell) →
      ∃ cell, (arena.addNode node).2.cells.get? place = some cell := by
    rintro place ⟨cell, hcell⟩
    exact ⟨cell, (hcells place).trans ((if_neg (hsound.cells.ne_next hcell)).trans hcell)⟩
  obtain ⟨hsource, htarget⟩ := hsound.joined edge link hlink
  exact ⟨hlive _ hsource, hlive _ htarget⟩

theorem Sound.setNode (hsound : arena.Sound) (place : Nat) (node : Node) :
    (arena.setNode place node).Sound := by
  have hlists : ∀ (list : Cell → List Nat) (stand : Link → Nat),
      (∀ cell, list (cell.setNode node) = list cell) → arena.Lists list stand →
      (arena.setNode place node).Lists list stand := by
    intro list stand hlist hlists other places hplaces
    rw [listAt_setNode arena place hlist] at hplaces
    exact hlists other places hplaces
  have hlive : ∀ other, (∃ cell, arena.cells.get? other = some cell) →
      ∃ cell, (arena.setNode place node).cells.get? other = some cell := by
    rintro other ⟨cell, hcell⟩
    rw [Arena.setNode, Slots.get?_modify, hcell]
    split
    · exact ⟨_, rfl⟩
    · exact ⟨cell, rfl⟩
  refine ⟨hsound.cells.modify _ _, hsound.links, hlists _ _ (fun _ => rfl) hsound.leaving,
    hlists _ _ (fun _ => rfl) hsound.entering, fun edge link hlink => ?_⟩
  obtain ⟨hsource, htarget⟩ := hsound.joined edge link hlink
  exact ⟨hlive _ hsource, hlive _ htarget⟩

/-! ### Edges -/

/-- The lists of two nodes are no matter to the ids. -/
theorem map_id_modify (cells : Slots Cell) (first second : Nat) {change change' : Cell → Cell}
    (hchange : ∀ cell, (change cell).node = cell.node)
    (hchange' : ∀ cell, (change' cell).node = cell.node) :
    ((cells.modify first change).modify second change').map (fun cell => cell.node.id) =
      cells.map fun cell => cell.node.id :=
  calc ((cells.modify first change).modify second change').map (fun cell => cell.node.id)
      = (cells.modify first change).map fun cell => cell.node.id :=
        Slots.map_modify fun cell _ => congrArg Node.id (hchange' cell)
    _ = cells.map fun cell => cell.node.id :=
        Slots.map_modify fun cell _ => congrArg Node.id (hchange cell)

theorem ids_addEdge (arena : Arena) (source target : Nat) (edge : Edge) :
    (arena.addEdge source target edge).2.ids = arena.ids :=
  map_id_modify _ _ _ (fun _ => rfl) fun _ => rfl

/-- What each cell is once an edge was stored at the next place. -/
theorem cells_addEdge (arena : Arena) (source target : Nat) (edge : Edge) (place : Nat) :
    (arena.addEdge source target edge).2.cells.get? place =
      (arena.cells.get? place).map fun cell =>
        { cell with
          leaving := if place = source then arena.links.next :: cell.leaving else cell.leaving
          entering := if place = target then arena.links.next :: cell.entering else cell.entering } := by
  rw [addEdge, Slots.get?_modify, Slots.get?_modify]
  cases arena.cells.get? place with
  | none => simp
  | some cell =>
    by_cases hsource : place = source <;> by_cases htarget : place = target
    · simp only [if_pos hsource, if_pos htarget, Option.map_some, Cell.leave, Cell.enter]
    · simp only [if_pos hsource, if_neg htarget, Option.map_some, Cell.leave]
    · simp only [if_neg hsource, if_pos htarget, Option.map_some, Cell.enter]
    · simp only [if_neg hsource, if_neg htarget, Option.map_some]

theorem leaving_addEdge (arena : Arena) (source target : Nat) (edge : Edge) (place : Nat) :
    (arena.addEdge source target edge).2.listAt Cell.leaving place =
      (arena.listAt Cell.leaving place).map fun places =>
        if place = source then arena.links.next :: places else places := by
  rw [listAt, cells_addEdge, listAt, Option.map_map, Option.map_map]
  rfl

theorem entering_addEdge (arena : Arena) (source target : Nat) (edge : Edge) (place : Nat) :
    (arena.addEdge source target edge).2.listAt Cell.entering place =
      (arena.listAt Cell.entering place).map fun places =>
        if place = target then arena.links.next :: places else places := by
  rw [listAt, cells_addEdge, listAt, Option.map_map, Option.map_map]
  rfl

theorem links_addEdge (haccounted : arena.links.Accounted) (source target : Nat) (edge : Edge)
    (other : Nat) : (arena.addEdge source target edge).2.links.get? other =
      if other = arena.links.next then some ⟨source, target, edge⟩ else arena.links.get? other :=
  haccounted.get?_insert ⟨source, target, edge⟩ other

theorem get?_keys_addEdge (haccounted : arena.links.Accounted) (source target : Nat) (edge : Edge)
    (other : Nat) : (arena.addEdge source target edge).2.keys.get? other =
      if other = arena.links.next then some edge.key else arena.keys.get? other := by
  rw [keys, Slots.get?_map, links_addEdge haccounted, keys, Slots.get?_map]
  split <;> rfl

theorem Sound.addEdge (hsound : arena.Sound) {source target : Nat} (edge : Edge)
    (hsource : ∃ cell, arena.cells.get? source = some cell)
    (htarget : ∃ cell, arena.cells.get? target = some cell) :
    (arena.addEdge source target edge).2.Sound := by
  have hlinks := links_addEdge hsound.links source target edge
  have hlive : ∀ place, (∃ cell, arena.cells.get? place = some cell) →
      ∃ cell, (arena.addEdge source target edge).2.cells.get? place = some cell := by
    rintro place ⟨cell, hcell⟩
    rw [cells_addEdge, hcell]
    exact ⟨_, rfl⟩
  refine ⟨(hsound.cells.modify _ _).modify _ _, hsound.links.insert _,
    hsound.leaving.add hsound.links.get?_next hlinks (arena.leaving_addEdge source target edge),
    hsound.entering.add hsound.links.get?_next hlinks (arena.entering_addEdge source target edge),
    fun other link hlink => ?_⟩
  rw [hlinks] at hlink
  split at hlink
  · obtain rfl := Option.some.inj hlink
    exact ⟨hlive _ hsource, hlive _ htarget⟩
  · obtain ⟨hsource, htarget⟩ := hsound.joined other link hlink
    exact ⟨hlive _ hsource, hlive _ htarget⟩

theorem links_setEdge (arena : Arena) (place : Nat) (edge : Edge) (other : Nat) :
    (arena.setEdge place edge).links.get? other =
      (arena.links.get? other).map fun link =>
        if other = place then { link with edge } else link := by
  rw [setEdge, Slots.get?_modify]
  split
  · rfl
  · exact Option.map_id'.symm

theorem keys_setEdge {edge : Edge}
    (hkey : ∀ old, arena.edge? place = some old → old.key = edge.key) :
    (arena.setEdge place edge).keys = arena.keys :=
  Slots.map_modify fun _ hlink => (hkey _ (edge?_eq hlink)).symm

theorem Sound.setEdge (hsound : arena.Sound) (place : Nat) (edge : Edge) :
    (arena.setEdge place edge).Sound := by
  have hlinks := arena.links_setEdge place edge
  have hlists : ∀ (list : Cell → List Nat) (stand : Link → Nat),
      (∀ link, stand { link with edge } = stand link) →
      arena.Lists list stand → (arena.setEdge place edge).Lists list stand := by
    intro list stand hstand hlists found places hplaces
    obtain ⟨hnodup, hmem⟩ := hlists found places hplaces
    refine ⟨hnodup, fun other => (hmem other).trans ?_⟩
    have hsame : ∀ link, stand (if other = place then { link with edge } else link) = stand link := by
      intro link
      split
      · exact hstand link
      · rfl
    simp only [hlinks, Option.map_eq_some_iff]
    constructor
    · rintro ⟨link, hlink, rfl⟩
      exact ⟨_, ⟨link, hlink, rfl⟩, hsame link⟩
    · rintro ⟨-, ⟨link, hlink, rfl⟩, hplace⟩
      exact ⟨link, hlink, (hsame link).symm.trans hplace⟩
  refine ⟨hsound.cells, hsound.links.modify _ _, hlists _ _ (fun _ => rfl) hsound.leaving,
    hlists _ _ (fun _ => rfl) hsound.entering, fun other link hlink => ?_⟩
  rw [hlinks, Option.map_eq_some_iff] at hlink
  obtain ⟨old, hold, rfl⟩ := hlink
  split <;> exact hsound.joined other old hold

/-! ### Removal -/

theorem ids_removeEdge (arena : Arena) (edge : Nat) : (arena.removeEdge edge).2.ids = arena.ids := by
  rw [removeEdge]
  split
  · rfl
  · exact map_id_modify _ _ _ (fun _ => rfl) fun _ => rfl

/-- An edge that is removed is on no list, though it was taken off those of its own ends only. -/
theorem Sound.cells_removeEdge (hsound : arena.Sound) (edge place : Nat) :
    (arena.removeEdge edge).2.cells.get? place =
      (arena.cells.get? place).map fun cell => cell.unlink edge := by
  cases hlink : arena.links.get? edge with
  | none =>
    rw [removeEdge, hlink]
    cases hcell : arena.cells.get? place with
    | none => rfl
    | some cell =>
      have hnone : ∀ (list : Cell → List Nat) (stand : Link → Nat), arena.Lists list stand →
          edge ∉ list cell := by
        intro list stand hlists hmem
        obtain ⟨link, hfound⟩ := hlists.live (listAt_eq hcell) hmem
        cases hlink.symm.trans hfound
      rw [Option.map_some, Cell.unlink_eq_self (hnone _ _ hsound.leaving) (hnone _ _ hsound.entering)]
  | some link =>
    rw [removeEdge, hlink]
    simp only [Slots.get?_modify]
    cases hcell : arena.cells.get? place with
    | none => simp
    | some cell =>
      have hmem : ∀ (list : Cell → List Nat) (stand : Link → Nat), arena.Lists list stand →
          (edge ∈ list cell ↔ stand link = place) := by
        intro list stand hlists
        rw [(hlists place _ (listAt_eq hcell)).2, hlink]
        simp
      have hleaving := hmem _ _ hsound.leaving
      have hentering := hmem _ _ hsound.entering
      have htwice : (cell.unlink edge).unlink edge = cell.unlink edge :=
        Cell.unlink_eq_self (by simp [Cell.unlink]) (by simp [Cell.unlink])
      by_cases hsource : place = link.source <;> by_cases htarget : place = link.target
      · simp only [if_pos hsource, if_pos htarget, Option.map_some, htwice]
      · simp only [if_pos hsource, if_neg htarget, Option.map_some]
      · simp only [if_neg hsource, if_pos htarget, Option.map_some]
      · have hkept : cell.unlink edge = cell :=
          Cell.unlink_eq_self (fun h => hsource (hleaving.1 h).symm)
            fun h => htarget (hentering.1 h).symm
        simp only [if_neg hsource, if_neg htarget, Option.map_some, hkept]

theorem links_removeEdge (arena : Arena) (edge other : Nat) :
    (arena.removeEdge edge).2.links.get? other =
      if other = edge then none else arena.links.get? other := by
  cases hlink : arena.links.get? edge with
  | none =>
    have hkept : (arena.removeEdge edge).2 = arena := by rw [removeEdge, hlink]
    rw [hkept]
    split
    · rename_i heq
      rw [heq, hlink]
    · rfl
  | some link =>
    rw [removeEdge, hlink]
    exact Slots.get?_vacate arena.links edge other

theorem get?_keys_removeEdge (arena : Arena) (edge other : Nat) :
    (arena.removeEdge edge).2.keys.get? other =
      if other = edge then none else arena.keys.get? other := by
  rw [keys, Slots.get?_map, links_removeEdge, keys, Slots.get?_map]
  split <;> rfl

theorem Sound.removeEdge (hsound : arena.Sound) (edge : Nat) : (arena.removeEdge edge).2.Sound := by
  have hcells := hsound.cells_removeEdge edge
  have hlinks := arena.links_removeEdge edge
  have haccounted : (arena.removeEdge edge).2.cells.Accounted ∧
      (arena.removeEdge edge).2.links.Accounted := by
    rw [Arena.removeEdge]
    split
    · exact ⟨hsound.cells, hsound.links⟩
    · exact ⟨(hsound.cells.modify _ _).modify _ _, hsound.links.vacate _⟩
  refine ⟨haccounted.1, haccounted.2, hsound.leaving.remove hlinks fun place => ?_,
    hsound.entering.remove hlinks fun place => ?_, fun other link hlink => ?_⟩
  · rw [listAt, hcells, listAt, Option.map_map, Option.map_map]
    rfl
  · rw [listAt, hcells, listAt, Option.map_map, Option.map_map]
    rfl
  · rw [hlinks] at hlink
    split at hlink
    · cases hlink
    · obtain ⟨⟨source, hsource⟩, target, htarget⟩ := hsound.joined other link hlink
      rw [hcells, hcells, hsource, htarget]
      exact ⟨⟨_, rfl⟩, _, rfl⟩

/-- What is left once the edges at some places are gone. -/
structure Unlinks (arena : Arena) (gone : List Nat) (after : Arena) : Prop where
  sound : after.Sound
  cells : ∀ place, after.cells.get? place =
    (arena.cells.get? place).map fun cell => cell.unlinkAll gone
  links : ∀ other, after.links.get? other =
    if other ∈ gone then none else arena.links.get? other
  ids : after.ids = arena.ids

theorem Unlinks.trans {middle : Arena} {first second : List Nat}
    (hfirst : arena.Unlinks first middle) (hsecond : middle.Unlinks second after) :
    arena.Unlinks (first ++ second) after := by
  refine ⟨hsecond.sound, fun place => ?_, fun other => ?_, hsecond.ids.trans hfirst.ids⟩
  · rw [hsecond.cells, hfirst.cells, Option.map_map]
    refine Option.map_congr fun cell _ => ?_
    rw [Function.comp_apply, Cell.unlinkAll, Cell.unlinkAll, Cell.unlinkAll, List.foldl_append]
  · rw [hsecond.links, hfirst.links]
    by_cases hother : other ∈ second <;> simp [hother]

theorem Sound.unlinks_removeEdge (hsound : arena.Sound) (edge : Nat) :
    arena.Unlinks [edge] (arena.removeEdge edge).2 := by
  refine ⟨hsound.removeEdge edge, hsound.cells_removeEdge edge, fun other => ?_,
    arena.ids_removeEdge edge⟩
  simp only [links_removeEdge, List.mem_singleton]

theorem Sound.unlinks_removeEdges (hsound : arena.Sound) (places : List Nat) :
    arena.Unlinks places (arena.removeEdges places) := by
  induction places generalizing arena with
  | nil => exact ⟨hsound, fun _ => Option.map_id'.symm, fun other => by simp [removeEdges], rfl⟩
  | cons edge rest ih =>
    have hone := hsound.unlinks_removeEdge edge
    exact hone.trans (ih hone.sound)

/-- What is left once a node is gone, with the edges at either end of it and only with those. -/
structure Empties (arena : Arena) (place : Nat) (gone : List Nat) (after : Arena) : Prop where
  sound : after.Sound
  mem_gone : ∀ edge, edge ∈ gone ↔ ∃ link, arena.links.get? edge = some link ∧
    (link.source = place ∨ link.target = place)
  cells : ∀ other, after.cells.get? other = if other = place then none else
    (arena.cells.get? other).map fun cell => cell.unlinkAll gone
  links : ∀ other, after.links.get? other =
    if other ∈ gone then none else arena.links.get? other
  ids : after.ids = arena.ids.vacate place

/-- A place is vacated once no edge is at either end of its node any more. -/
theorem Unlinks.empties {gone : List Nat} (hunlinks : arena.Unlinks gone after)
    (hgone : ∀ edge, edge ∈ gone ↔ ∃ link, arena.links.get? edge = some link ∧
      (link.source = place ∨ link.target = place)) :
    arena.Empties place gone { after with cells := after.cells.vacate place } := by
  have hvacated := Slots.get?_vacate after.cells place
  have hapart : ∀ other link, after.links.get? other = some link →
      link.source ≠ place ∧ link.target ≠ place := by
    intro other link hlink
    rw [hunlinks.links] at hlink
    split at hlink
    · cases hlink
    · rename_i hnot
      rw [hgone] at hnot
      exact ⟨fun h => hnot ⟨link, hlink, .inl h⟩, fun h => hnot ⟨link, hlink, .inr h⟩⟩
  have hlists : ∀ (list : Cell → List Nat) (stand : Link → Nat), after.Lists list stand →
      Lists { after with cells := after.cells.vacate place } list stand := by
    intro list stand hlists other places hplaces
    rw [listAt, hvacated] at hplaces
    split at hplaces
    · cases hplaces
    · exact hlists other places hplaces
  have hsound := hunlinks.sound
  refine ⟨⟨hsound.cells.vacate place, hsound.links, hlists _ _ hsound.leaving,
    hlists _ _ hsound.entering, fun other link hlink => ?_⟩, hgone, fun other => ?_,
    hunlinks.links, (Slots.map_vacate _ _ _).trans (congrArg (Slots.vacate · place) hunlinks.ids)⟩
  · rw [hvacated, hvacated, if_neg (hapart other link hlink).1, if_neg (hapart other link hlink).2]
    exact hsound.joined other link hlink
  · rw [hvacated, hunlinks.cells]

/-- The edges that leave a node and those that enter it from elsewhere are the ones at either end. -/
theorem Sound.mem_leaving_entering (hsound : arena.Sound)
    (hcell : arena.cells.get? place = some cell) (edge : Nat) :
    edge ∈ cell.leaving ++ (cell.unlinkAll cell.leaving).entering ↔
      ∃ link, arena.links.get? edge = some link ∧
        (link.source = place ∨ link.target = place) := by
  have hentering : edge ∈ (cell.unlinkAll cell.leaving).entering ↔
      edge ∈ cell.entering ∧ edge ∉ cell.leaving := by
    rw [Cell.entering_unlinkAll, List.mem_filter, decide_eq_true_eq]
  calc edge ∈ cell.leaving ++ (cell.unlinkAll cell.leaving).entering
      ↔ edge ∈ cell.leaving ∨ edge ∈ cell.entering := by
        rw [List.mem_append, hentering]
        tauto
    _ ↔ _ := by
        rw [(hsound.leaving place _ (listAt_eq hcell)).2,
          (hsound.entering place _ (listAt_eq hcell)).2, ← exists_or]
        simp only [and_or_left]

theorem Sound.exists_removeNode (hsound : arena.Sound)
    (hcell : arena.cells.get? place = some cell) :
    ∃ gone after, arena.removeNode place = (some cell.node, after) ∧
      arena.Empties place gone after := by
  have hleaving := hsound.unlinks_removeEdges cell.leaving
  have hleft : (arena.removeEdges cell.leaving).cells.get? place =
      some (cell.unlinkAll cell.leaving) := by
    rw [hleaving.cells, hcell, Option.map_some]
  have hboth := hleaving.trans
    (hleaving.sound.unlinks_removeEdges (cell.unlinkAll cell.leaving).entering)
  refine ⟨_, _, ?_, hboth.empties (hsound.mem_leaving_entering hcell)⟩
  rw [removeNode, hcell]
  simp only [hleft]

end Arena

end CodeGraph
