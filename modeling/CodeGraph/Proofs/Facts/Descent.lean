import CodeGraph.Facts.Walk
import Mathlib.Data.List.Basic
import Mathlib.Logic.Relation
import Mathlib.Order.Lattice

/-!
# Walks go down

What a walk does at a node rests on how it goes on at the nodes below that node and at no other. This is
why it comes to an end: it never gets further than there are levels in the tree. The one thing to ask
for is that a member access has an object, for a chain of them is followed down to where it starts.
-/

namespace CodeGraph

namespace Tree

/-- A node with another somewhere below it. -/
def Encloses : Tree → Tree → Prop :=
  Relation.TransGen fun outer inner => inner ∈ outer.children

variable {node child inner : Tree} {field : String}

theorem mem_children_of_child? (hchild : node.child? field = some child) :
    child ∈ node.children :=
  List.mem_of_find?_eq_some hchild

theorem mem_children_of_childrenIn (hchild : child ∈ node.childrenIn field) :
    child ∈ node.children :=
  (List.mem_filter.1 hchild).1

theorem mem_children_of_named (hchild : child ∈ node.namedChildren) : child ∈ node.children :=
  (List.mem_filter.1 hchild).1

theorem height_le_heights {nodes : List Tree} (hnode : node ∈ nodes) :
    node.height ≤ heights nodes := by
  induction nodes with
  | nil => cases hnode
  | cons head rest ih =>
    rw [heights]
    obtain rfl | hrest := List.mem_cons.1 hnode
    · exact Nat.le_max_left _ _
    · exact (ih hrest).trans (Nat.le_max_right _ _)

theorem height_eq (node : Tree) : node.height = heights node.children + 1 := by
  cases node
  rfl

theorem height_lt_of_mem (hchild : child ∈ node.children) : child.height < node.height := by
  rw [height_eq node]
  exact Nat.lt_succ_of_le (height_le_heights hchild)

theorem encloses_of_mem (hchild : child ∈ node.children) : node.Encloses child :=
  Relation.TransGen.single hchild

theorem Encloses.height_lt (hencloses : node.Encloses inner) : inner.height < node.height := by
  induction hencloses with
  | single hchild => exact height_lt_of_mem hchild
  | tail _ hchild ih => exact (height_lt_of_mem hchild).trans ih

/-! ### Chains -/

theorem encloses_or_chainRootWithin (members : List String) (object : String) (fuel : Nat)
    (node : Tree) : chainRootWithin members object fuel node = node ∨
      node.Encloses (chainRootWithin members object fuel node) := by
  induction fuel generalizing node with
  | zero => exact .inl rfl
  | succ fuel ih =>
    rw [chainRootWithin]
    split
    · split
      · rename_i inner hinner
        have hchild := encloses_of_mem (mem_children_of_child? hinner)
        obtain hroot | hroot := ih inner
        · exact .inr (by rwa [hroot])
        · exact .inr (hchild.trans hroot)
      · exact .inl rfl
    · exact .inl rfl

/-- A chain of member accesses starts below the last of them. -/
theorem encloses_chainRoot {members : List String} {object : String} (hkind : node.kind ∈ members)
    (hobject : (node.child? object).isSome) : node.Encloses (node.chainRoot members object) := by
  obtain ⟨inner, hinner⟩ := Option.isSome_iff_exists.1 hobject
  have hchild := encloses_of_mem (mem_children_of_child? hinner)
  rw [chainRoot, height_eq, chainRootWithin, if_pos hkind, hinner]
  dsimp only
  obtain hroot | hroot := encloses_or_chainRootWithin members object (heights node.children) inner
  · rwa [hroot]
  · exact hchild.trans hroot

/-- The nodes that are reached through others lie below them. -/
theorem encloses_of_mem_leavesWithin {branches : List String} {fuel : Nat} {leaf : Tree}
    (hleaf : leaf ∈ leavesWithin branches fuel node) : leaf = node ∨ node.Encloses leaf := by
  induction fuel generalizing node with
  | zero => cases hleaf
  | succ fuel ih =>
    rw [leavesWithin] at hleaf
    split at hleaf
    · obtain ⟨child, hchild, hbelow⟩ := List.mem_flatMap.1 hleaf
      have hencloses := encloses_of_mem (mem_children_of_named hchild)
      obtain rfl | hinner := ih hbelow
      · exact .inr hencloses
      · exact .inr (hencloses.trans hinner)
    · exact .inl (List.mem_singleton.1 hleaf)

/-- What holds at a node and everywhere below it. -/
def Everywhere (holds : Tree → Prop) (tree : Tree) : Prop :=
  ∀ node, node = tree ∨ tree.Encloses node → holds node

theorem Everywhere.here {holds : Tree → Prop} (hholds : node.Everywhere holds) : holds node :=
  hholds node (.inl rfl)

theorem Everywhere.below {holds : Tree → Prop} (hholds : node.Everywhere holds)
    (hinner : node.Encloses inner) : inner.Everywhere holds := by
  rintro other (rfl | hother)
  · exact hholds other (.inr hinner)
  · exact hholds other (.inr (hinner.trans hother))

theorem everywhere_iff {holds : Tree → Prop} :
    node.Everywhere holds ↔ holds node ∧ ∀ child ∈ node.children, child.Everywhere holds := by
  refine ⟨fun hholds => ⟨hholds.here, fun child hchild => hholds.below (encloses_of_mem hchild)⟩, ?_⟩
  rintro ⟨hhere, hchildren⟩ other (rfl | hother)
  · exact hhere
  · obtain ⟨child, hchild, hbelow⟩ := Relation.TransGen.head'_iff.1 hother
    exact hchildren child hchild other (Relation.reflTransGen_iff_eq_or_transGen.1 hbelow)

/-! ### Recursion -/

section Recursion

variable {α : Type}

/-- The two functions are the same at every node below this one. -/
def AgreeBelow (node : Tree) (left right : Tree → α) : Prop :=
  ∀ inner, node.Encloses inner → left inner = right inner

theorem AgreeBelow.eq {left right : Tree → α} (hagree : node.AgreeBelow left right)
    (hchild : child ∈ node.children) : left child = right child :=
  hagree child (encloses_of_mem hchild)

theorem AgreeBelow.below {left right : Tree → α} (hagree : node.AgreeBelow left right)
    (hchild : child ∈ node.children) : child.AgreeBelow left right :=
  fun inner hinner => hagree inner (.head hchild hinner)

/-- What a step does at a node that is as it has to be rests on the nodes below that one alone. -/
def Descends (carries : Tree → Prop) (step : (Tree → α) → Tree → α) : Prop :=
  ∀ node left right, carries node → node.AgreeBelow left right → step left node = step right node

/-- **A recursion that goes down comes to an end within the levels of the tree**: how it would go on
after that makes no difference. The induction is on the steps. -/
theorem Descends.iterate_eq {carries : Tree → Prop} {step : (Tree → α) → Tree → α}
    (hdescends : Descends carries step) {tree : Tree}
    (hcarries : tree.Everywhere carries) (left right : Tree → α)
    {fuel more : Nat} (hfuel : tree.height ≤ fuel) (hmore : tree.height ≤ more) :
    step^[fuel] left tree = step^[more] right tree := by
  induction fuel generalizing tree more with
  | zero =>
    rw [height_eq] at hfuel
    cases hfuel
  | succ fuel ih =>
    obtain ⟨rest, rfl⟩ : ∃ rest, more = rest + 1 := by
      rw [height_eq] at hmore
      exact Nat.exists_eq_add_of_le' ((Nat.le_add_left 1 _).trans hmore)
    rw [Function.iterate_succ_apply', Function.iterate_succ_apply']
    refine hdescends tree _ _ hcarries.here fun inner hinner => ?_
    have hlt := hinner.height_lt
    exact ih (hcarries.below hinner) (Nat.le_of_lt_succ (hlt.trans_le hfuel))
      (Nat.le_of_lt_succ (hlt.trans_le hmore))

end Recursion

end Tree

namespace Walk

variable {α β : Type}

/-- A node that has its object in case it is a member access. -/
def MemberShape.Carries (shape : MemberShape) (node : Tree) : Prop :=
  node.kind ∈ shape.members → (node.child? shape.object).isSome

instance (shape : MemberShape) (node : Tree) : Decidable (shape.Carries node) :=
  inferInstanceAs (Decidable (node.kind ∈ shape.members → (node.child? shape.object).isSome))

theorem forM_congr {items : List α} {left right : α → Walk Unit}
    (hsame : ∀ item ∈ items, left item = right item) : items.forM left = items.forM right := by
  induction items with
  | nil => rfl
  | cons item rest ih =>
    have hrest := ih fun other hother => hsame other (List.mem_cons_of_mem item hother)
    rw [List.forM, List.forM, hsame item List.mem_cons_self, hrest]

theorem optionForM_congr {item : Option α} {left right : α → Walk Unit}
    (hsame : ∀ found, item = some found → left found = right found) :
    item.forM left = item.forM right := by
  cases item with
  | none => rfl
  | some found => exact hsame found rfl

theorem foldlM_congr {items : List α} {left right : β → α → Walk β} {start : β}
    (hsame : ∀ state, ∀ item ∈ items, left state item = right state item) :
    items.foldlM left start = items.foldlM right start := by
  induction items generalizing start with
  | nil => rfl
  | cons item rest ih =>
    rw [List.foldlM_cons, List.foldlM_cons, hsame start item List.mem_cons_self]
    exact congrArg _ (funext fun state =>
      ih fun state other hother => hsame state other (List.mem_cons_of_mem item hother))

/-- What is done at the child in a role. -/
theorem fieldForM_congr {node : Tree} {left right : Tree → Walk Unit} (field : String)
    (hsame : ∀ child ∈ node.children, left child = right child) :
    (node.child? field).forM left = (node.child? field).forM right :=
  optionForM_congr fun child hchild => hsame child (Tree.mem_children_of_child? hchild)

/-- What is done at every named child. -/
theorem namedForM_congr {node : Tree} {left right : Tree → Walk Unit}
    (hsame : ∀ child ∈ node.children, left child = right child) :
    node.namedChildren.forM left = node.namedChildren.forM right :=
  forM_congr fun child hchild => hsame child (Tree.mem_children_of_named hchild)

section Agree

variable {node : Tree} {left right : Visit} (hagree : node.AgreeBelow left right)

include hagree

theorem visitChildren_congr : visitChildren left node = visitChildren right node :=
  namedForM_congr fun _ => hagree.eq

theorem visitField_congr (field : String) :
    visitField left node field = visitField right node field := by
  rw [visitField, visitField]
  split
  · rename_i child hchild
    exact hagree.eq (Tree.mem_children_of_child? hchild)
  · rfl

/-- The start of a chain lies below an access that has its object. -/
theorem memberUse_congr {shape : MemberShape} (hcarries : shape.Carries node)
    (hkind : node.kind ∈ shape.members) :
    memberUse left shape node = memberUse right shape node := by
  rw [memberUse, memberUse, hagree _ (Tree.encloses_chainRoot hkind (hcarries hkind))]

end Agree

theorem unroll_eq_iterate (step : Visit → Visit) (fuel : Nat) :
    unroll step fuel = step^[fuel] fun _ => pure () := by
  induction fuel with
  | zero => rfl
  | succ fuel ih => rw [unroll, ih, Function.iterate_succ_apply']

end Walk

end CodeGraph
