import CodeGraph.Parsed
import CodeGraph.Proofs.Facts.Descent
import Mathlib.Data.List.Nodup

/-!
# The faults of a tree

Nodes are told apart by their addresses, for the same subtree may stand in several places. The walk
with a stack lists the range of every fault that has no fault above it, once for each address: what it
passes over has no fault anywhere below.
-/

namespace CodeGraph

namespace ByteRange

theorem before_iff {left right : ByteRange} : left.before right ↔
    left.start < right.start ∨ (left.start = right.start ∧ left.stop ≤ right.stop) := by
  simp [before]

theorem before_trans (first second third : ByteRange) (hfirst : first.before second)
    (hsecond : second.before third) : first.before third := by
  rw [before_iff] at *
  omega

theorem before_total (left right : ByteRange) : left.before right || right.before left := by
  rw [Bool.or_eq_true, before_iff, before_iff]
  omega

end ByteRange

namespace Tree

variable {root node inner : Tree} {address : List Nat}

/-! ### Addresses -/

/-- The node at an address, which tells at every level of the way down the index of the child. -/
def at? (root : Tree) : List Nat → Option Tree
  | [] => some root
  | index :: rest => root.children[index]?.bind fun child => child.at? rest

theorem at?_cons_eq_some_iff {index : Nat} {rest : List Nat} :
    root.at? (index :: rest) = some inner ↔
      ∃ child, root.children[index]? = some child ∧ child.at? rest = some inner := by
  rw [at?, Option.bind_eq_some_iff]

theorem at?_append (root : Tree) (above below : List Nat) :
    root.at? (above ++ below) = (root.at? above).bind fun node => node.at? below := by
  induction above generalizing root with
  | nil => rfl
  | cons index above ih =>
    rw [List.cons_append, at?, at?]
    cases root.children[index]? with
    | none => rfl
    | some child => exact ih child

/-- A fault with no fault above it. -/
structure IsOutermostFault (root : Tree) (address : List Nat) (node : Tree) : Prop where
  found : root.at? address = some node
  fault : node.isFault
  outermost : ∀ above, above <+: address → above ≠ address →
    ∀ ancestor, root.at? above = some ancestor → ancestor.isFault = false

theorem isOutermostFault_nil :
    root.IsOutermostFault [] inner ↔ inner = root ∧ root.isFault := by
  constructor
  · intro hfault
    obtain rfl := Option.some.inj hfault.found
    exact ⟨rfl, hfault.fault⟩
  · rintro ⟨rfl, hfault⟩
    exact ⟨rfl, hfault, fun above habove hne => absurd (List.prefix_nil.1 habove) hne⟩

theorem isOutermostFault_cons {index : Nat} {rest : List Nat} :
    root.IsOutermostFault (index :: rest) inner ↔ root.isFault = false ∧
      ∃ child, root.children[index]? = some child ∧ child.IsOutermostFault rest inner := by
  constructor
  · intro hfault
    obtain ⟨child, hchild, hinner⟩ := at?_cons_eq_some_iff.1 hfault.found
    refine ⟨hfault.outermost [] List.nil_prefix (List.cons_ne_nil index rest).symm root rfl, child,
      hchild, hinner, hfault.fault, fun above habove hne ancestor hancestor => ?_⟩
    apply hfault.outermost (index :: above) (List.cons_prefix_cons.2 ⟨rfl, habove⟩)
    · exact fun heq => hne (List.cons.inj heq).2
    · exact at?_cons_eq_some_iff.2 ⟨child, hchild, hancestor⟩
  · rintro ⟨hroot, child, hchild, hfault⟩
    refine ⟨at?_cons_eq_some_iff.2 ⟨child, hchild, hfault.found⟩, hfault.fault, ?_⟩
    intro above habove hne ancestor hancestor
    obtain rfl | ⟨rest', rfl, hrest⟩ := List.prefix_cons_iff.1 habove
    · exact Option.some.inj hancestor ▸ hroot
    · obtain ⟨other, hother, hbelow⟩ := at?_cons_eq_some_iff.1 hancestor
      obtain rfl := Option.some.inj (hchild.symm.trans hother)
      exact hfault.outermost rest' hrest (fun heq => hne (heq ▸ rfl)) ancestor hbelow

/-! ### Errors below a node -/

theorem anyError_eq (nodes : List Tree) : anyError nodes = nodes.any hasError := by
  induction nodes with
  | nil => rfl
  | cons node nodes ih => rw [anyError, ih, List.any_cons]

theorem hasError_eq (node : Tree) :
    node.hasError = (node.isFault || node.hidesError || node.children.any hasError) := by
  cases node
  rw [hasError, anyError_eq]
  rfl

/-- A tree has an error exactly when some node of it is a fault or hides one. -/
theorem hasError_iff : node.hasError ↔
    ∃ address inner, node.at? address = some inner ∧ (inner.isFault ∨ inner.hidesError) := by
  constructor
  · intro herror
    induction hheight : node.height using Nat.strong_induction_on generalizing node with
    | _ height ih =>
      rw [hasError_eq, Bool.or_eq_true, Bool.or_eq_true] at herror
      obtain hhere | hbelow := herror
      · exact ⟨[], node, rfl, hhere⟩
      · obtain ⟨child, hchild, herror⟩ := List.any_eq_true.1 hbelow
        obtain ⟨address, inner, hinner, hfault⟩ :=
          ih child.height (hheight ▸ height_lt_of_mem hchild) herror rfl
        obtain ⟨index, hindex⟩ := List.mem_iff_getElem?.1 hchild
        exact ⟨index :: address, inner, at?_cons_eq_some_iff.2 ⟨child, hindex, hinner⟩, hfault⟩
  · rintro ⟨address, inner, hinner, hfault⟩
    induction address generalizing node with
    | nil =>
      obtain rfl := Option.some.inj hinner
      rw [hasError_eq, Bool.or_eq_true, Bool.or_eq_true]
      exact .inl hfault
    | cons index rest ih =>
      obtain ⟨child, hchild, hinner⟩ := at?_cons_eq_some_iff.1 hinner
      have hbelow : node.children.any hasError :=
        List.any_eq_true.2 ⟨child, List.mem_of_getElem? hchild, ih hinner⟩
      rw [hasError_eq, hbelow, Bool.or_true]

/-- All nodes on the way down to a fault show that there is an error. -/
theorem hasError_of_prefix {above : List Nat} (hfound : root.at? address = some inner)
    (hfault : inner.isFault) (habove : above <+: address) (hnode : root.at? above = some node) :
    node.hasError := by
  obtain ⟨below, rfl⟩ := habove
  rw [at?_append, hnode] at hfound
  exact hasError_iff.2 ⟨below, inner, hfound, .inl hfault⟩

/-! ### Outermost faults -/

mutual

/-- The outermost faults with their addresses, from the top down and with nothing left out. -/
def outermost : Tree → List (List Nat × Tree)
  | ⟨kind, named, isError, isMissing, hidesError, range, field, children⟩ =>
    if isError || isMissing then
      [([], ⟨kind, named, isError, isMissing, hidesError, range, field, children⟩)]
    else outermostIn 0 children

/-- The outermost faults of nodes that are children from an index on. -/
def outermostIn : Nat → List Tree → List (List Nat × Tree)
  | _, [] => []
  | index, node :: rest =>
    (outermost node).map (fun fault => (index :: fault.1, fault.2)) ++ outermostIn (index + 1) rest

end

theorem outermost_eq (node : Tree) :
    node.outermost = if node.isFault then [([], node)] else outermostIn 0 node.children := by
  cases node
  rfl

theorem mem_outermostIn {start : Nat} {nodes : List Tree} {fault : List Nat × Tree} :
    fault ∈ outermostIn start nodes ↔ ∃ index child, nodes[index]? = some child ∧
      ∃ rest, (rest, fault.2) ∈ child.outermost ∧ fault.1 = (start + index) :: rest := by
  induction nodes generalizing start with
  | nil => simp [outermostIn]
  | cons node nodes ih =>
    rw [outermostIn, List.mem_append, List.mem_map, ih]
    constructor
    · rintro (⟨found, hfound, rfl⟩ | ⟨index, child, hchild, rest, hrest, haddress⟩)
      · exact ⟨0, node, rfl, found.1, hfound, rfl⟩
      · refine ⟨index + 1, child, hchild, rest, hrest, haddress.trans ?_⟩
        rw [Nat.add_assoc, Nat.add_comm 1 index]
    · rintro ⟨_ | index, child, hchild, rest, hrest, haddress⟩
      · obtain rfl := Option.some.inj hchild
        exact .inl ⟨(rest, fault.2), hrest, Prod.ext haddress.symm rfl⟩
      · refine .inr ⟨index, child, hchild, rest, hrest, haddress.trans ?_⟩
        rw [Nat.add_assoc, Nat.add_comm 1 index]

/-- The recursion comes to the outermost faults and to nothing else. -/
theorem mem_outermost :
    (address, inner) ∈ node.outermost ↔ node.IsOutermostFault address inner := by
  induction address generalizing node with
  | nil =>
    rw [outermost_eq, isOutermostFault_nil]
    split
    · rename_i hfault
      simp [hfault]
    · rename_i hfault
      rw [mem_outermostIn]
      simp [hfault]
  | cons index rest ih =>
    rw [outermost_eq, isOutermostFault_cons]
    split
    · rename_i hfault
      simp [hfault]
    · rename_i hfault
      rw [mem_outermostIn]
      constructor
      · rintro ⟨found, child, hchild, below, hbelow, haddress⟩
        rw [Nat.zero_add] at haddress
        obtain ⟨rfl, rfl⟩ := List.cons.inj haddress
        exact ⟨Bool.not_eq_true _ ▸ hfault, child, hchild, ih.1 hbelow⟩
      · rintro ⟨-, child, hchild, hbelow⟩
        exact ⟨index, child, hchild, rest, ih.2 hbelow, by rw [Nat.zero_add]⟩

theorem nodup_outermostIn {nodes : List Tree}
    (hnodes : ∀ node ∈ nodes, (node.outermost.map Prod.fst).Nodup) (start : Nat) :
    ((outermostIn start nodes).map Prod.fst).Nodup := by
  induction nodes generalizing start with
  | nil => exact List.nodup_nil
  | cons node nodes ih =>
    have hrest := ih (fun other hother => hnodes other (List.mem_cons_of_mem node hother)) (start + 1)
    rw [outermostIn, List.map_append, List.map_map]
    refine List.Nodup.append ?_ hrest ?_
    · have hnode := hnodes node List.mem_cons_self
      rw [show Prod.fst ∘ (fun fault : List Nat × Tree => (start :: fault.1, fault.2)) =
        (start :: ·) ∘ Prod.fst from rfl, ← List.map_map]
      exact hnode.map List.cons_injective
    · -- the addresses below this node begin with its index, all others with a later one
      intro address hhere hlater
      obtain ⟨first, -, rfl⟩ := List.mem_map.1 hhere
      obtain ⟨second, hsecond, hsame⟩ := List.mem_map.1 hlater
      obtain ⟨index, -, -, rest, -, haddress⟩ := mem_outermostIn.1 hsecond
      have hstart := (List.cons.inj (haddress.symm.trans hsame)).1
      omega

theorem nodup_outermost (node : Tree) : (node.outermost.map Prod.fst).Nodup := by
  rw [outermost_eq]
  split
  · exact List.nodup_singleton []
  · exact nodup_outermostIn (fun child hchild => nodup_outermost child) 0
termination_by node.height
decreasing_by exact height_lt_of_mem hchild

/-! ### The walk -/

/-- The ranges of the outermost faults of a tree. -/
def faultRanges (node : Tree) : List ByteRange :=
  node.outermost.map fun fault => fault.2.range

theorem map_outermostIn (start : Nat) (nodes : List Tree) :
    (outermostIn start nodes).map (fun fault => fault.2.range) = nodes.flatMap faultRanges := by
  induction nodes generalizing start with
  | nil => rfl
  | cons node nodes ih =>
    rw [outermostIn, List.map_append, List.map_map, ih, List.flatMap_cons]
    rfl

theorem faultRanges_of_isFault (hfault : node.isFault) : node.faultRanges = [node.range] := by
  rw [faultRanges, outermost_eq, if_pos hfault]
  rfl

theorem faultRanges_of_not_isFault (hfault : ¬ node.isFault) :
    node.faultRanges = node.children.flatMap faultRanges := by
  rw [faultRanges, outermost_eq, if_neg hfault, map_outermostIn]

/-- Nothing is lost where the walk turns back. -/
theorem faultRanges_of_not_hasError (herror : ¬ node.hasError) : node.faultRanges = [] := by
  rw [faultRanges, List.map_eq_nil_iff, List.eq_nil_iff_forall_not_mem]
  rintro ⟨address, inner⟩ hmem
  have hfault := mem_outermost.1 hmem
  exact herror (hasError_iff.2 ⟨address, inner, hfault.found, .inl hfault.fault⟩)

/-- The walk lists what the recursion comes to below the nodes on the stack. -/
theorem faultsOn_perm (stack : List Tree) : (faultsOn stack).Perm (stack.flatMap faultRanges) := by
  induction stack using faultsOn.induct with
  | case1 => rw [faultsOn]; exact .nil
  | case2 node stack hfault ih =>
    rw [faultsOn, if_pos hfault, List.flatMap_cons, faultRanges_of_isFault hfault]
    exact ih.cons node.range
  | case3 node stack hfault herror ih =>
    rw [List.unattach_reverse, List.unattach_attach, List.flatMap_append] at ih
    rw [faultsOn, if_neg hfault, if_pos herror, List.flatMap_cons,
      faultRanges_of_not_isFault hfault]
    exact ih.trans ((node.children.reverse_perm.flatMap_right faultRanges).append_right _)
  | case4 node stack hfault herror ih =>
    rw [faultsOn, if_neg hfault, if_neg herror, List.flatMap_cons,
      faultRanges_of_not_hasError herror]
    exact ih

theorem errorRanges_perm (root : Tree) : root.errorRanges.Perm root.faultRanges := by
  have hwalk := faultsOn_perm [root]
  rw [List.flatMap_singleton] at hwalk
  exact (List.mergeSort_perm _ _).trans hwalk

theorem sorted_errorRanges (root : Tree) :
    root.errorRanges.Pairwise fun left right => left.before right :=
  List.pairwise_mergeSort ByteRange.before_trans ByteRange.before_total (faultsOn [root])

end Tree

namespace Parsed

/-- **The error ranges of a file are those of its outermost faults.** They are listed in order, one for
each node that is a fault with no fault above it, wherever it stands. On the way down to such a node
everything shows an error, so passing over what shows none misses nothing, and a file with an error
range has errors. -/
theorem errorRanges_outermost (parsed : Parsed) :
    (∃ faults : List (List Nat × Tree), (faults.map Prod.fst).Nodup ∧
      (∀ address node,
        (address, node) ∈ faults ↔ parsed.tree.IsOutermostFault address node) ∧
      parsed.errorRanges.Perm (faults.map fun fault => fault.2.range)) ∧
    parsed.errorRanges.Pairwise (fun left right => left.before right) ∧
    (∀ address node, parsed.tree.IsOutermostFault address node → ∀ above ancestor,
      above <+: address → parsed.tree.at? above = some ancestor → ancestor.hasError) ∧
    (parsed.errorRanges ≠ [] → parsed.hasErrors) := by
  refine ⟨⟨parsed.tree.outermost, Tree.nodup_outermost _, fun _ _ => Tree.mem_outermost,
    Tree.errorRanges_perm _⟩, Tree.sorted_errorRanges _, ?_, fun hranges => ?_⟩
  · intro address node hfault above ancestor habove hancestor
    exact Tree.hasError_of_prefix hfault.found hfault.fault habove hancestor
  · by_contra herrors
    have hnone := Tree.faultRanges_of_not_hasError herrors
    have hperm := Tree.errorRanges_perm parsed.tree
    rw [hnone] at hperm
    exact hranges hperm.eq_nil

/-- A file may have errors and no error range: an error may be hidden in a node that is no fault. -/
example : ∃ parsed : Parsed, parsed.hasErrors ∧ parsed.errorRanges = [] :=
  ⟨⟨.python, "", ⟨"module", true, false, false, true, ⟨0, 0⟩, none, []⟩⟩, by decide +kernel⟩

end Parsed

end CodeGraph
