import CodeGraph.Proofs.Workspace.Names
import Mathlib.Algebra.Order.BigOperators.Group.List
import Mathlib.Data.Finset.Card
import Mathlib.Data.List.Flatten

/-!
# Members by inheritance

The bases of a class are what names in its file mean. They may lie in any file, be reached along several
ways and lead back to the class. A search that goes level by level and asks no class twice finds a
member at the least number of steps, and there are levels enough for every class. The classes that wait
in turn come level after level, so asking them one by one finds the same member.
-/

namespace CodeGraph

/-! ### Direct members -/

theorem FileFacts.member?_eq_none_iff {facts : FileFacts} {outer : Nat} {name : String} :
    facts.member? outer name = none ↔
      ∀ fact ∈ facts.symbols, ¬ (fact.parent = some outer ∧ fact.name = name) := by
  rw [FileFacts.member?, Option.map_eq_none_iff, List.find?_eq_none]
  constructor
  · intro hnone fact hfact
    obtain ⟨index, hindex⟩ := List.mem_iff_getElem?.1 hfact
    simpa using hnone (fact, index) (List.mem_reverse.2 (List.mem_zipIdx_iff_getElem?.2 hindex))
  · rintro hnone ⟨fact, index⟩ hentry
    have hfact := List.mem_of_getElem? (List.mem_zipIdx_iff_getElem?.1 (List.mem_reverse.1 hentry))
    simpa using hnone fact hfact

/-- The member is the last of the symbols that it could be. -/
theorem FileFacts.exists_of_member? {facts : FileFacts} {outer index : Nat} {name : String}
    (hmember : facts.member? outer name = some index) :
    ∃ fact, facts.symbols[index]? = some fact ∧ (fact.parent = some outer ∧ fact.name = name) ∧
      ∀ (later : Nat) (other : SymbolFact), index < later → facts.symbols[later]? = some other →
        ¬ (other.parent = some outer ∧ other.name = name) := by
  obtain ⟨⟨fact, index⟩, hfind, rfl⟩ := Option.map_eq_some_iff.1 hmember
  obtain ⟨hfact, before, after, hsplit, hbefore⟩ := List.find?_eq_some_iff_append.1 hfind
  have hmem : ∀ {place : Nat} {other : SymbolFact}, facts.symbols[place]? = some other ↔
      (other, place) ∈ before ++ (fact, index) :: after := by
    intro place other
    rw [← hsplit, List.mem_reverse, List.mem_zipIdx_iff_getElem?]
  -- the list goes back from the last symbol, so what comes after the member was declared before it
  have hdescending : (before ++ (fact, index) :: after).Pairwise fun left right =>
      right.2 < left.2 := by
    rw [← hsplit, List.pairwise_reverse, ← List.pairwise_map (f := Prod.snd) (R := (· < ·)),
      List.zipIdx_map_snd]
    exact List.pairwise_lt_range'
  refine ⟨fact, hmem.2 (List.mem_append_right _ List.mem_cons_self), by simpa using hfact,
    fun later other hlater hother hboth => ?_⟩
  rcases List.mem_append.1 (hmem.1 hother) with hother | hother
  · simpa [hboth] using hbefore _ hother
  · rcases List.mem_cons.1 hother with heq | hother
    · exact absurd (congrArg Prod.snd heq) (Nat.ne_of_gt hlater)
    · have hlt := List.rel_of_pairwise_cons (List.pairwise_append.1 hdescending).2.1 hother
      exact absurd hlt (Nat.lt_asymm hlater)

namespace Workspace

/-- A class lies a number of steps above another, each step to one of the bases. -/
inductive Inherits (workspace : Workspace) (id : NodeId) : Nat → NodeId → Prop
  | self : Inherits workspace id 0 id
  | base {steps : Nat} {ancestor base : NodeId} (hancestor : Inherits workspace id steps ancestor)
      (hbase : base ∈ workspace.basesOf ancestor) : Inherits workspace id (steps + 1) base

/-- A member is the last symbol with its name that is declared directly in a symbol. -/
def Declares (workspace : Workspace) (id : NodeId) (name : String) (member : NodeId) : Prop :=
  ∃ file ∈ workspace.files, ∃ (outer index : Nat) (fact : SymbolFact),
    file.symbols[outer]? = some id ∧ file.symbols[index]? = some member ∧
      file.facts.symbols[index]? = some fact ∧ (fact.parent = some outer ∧ fact.name = name) ∧
      ∀ (later : Nat) (other : SymbolFact), index < later →
        file.facts.symbols[later]? = some other → ¬ (other.parent = some outer ∧ other.name = name)

/-- The nodes of a level that were not seen before, each once. -/
def freshOf (seen level : List NodeId) : List NodeId :=
  (level.filter (· ∉ seen)).eraseDups

theorem mem_freshOf {seen level : List NodeId} {id : NodeId} :
    id ∈ freshOf seen level ↔ id ∈ level ∧ id ∉ seen := by
  simp [freshOf]

/-- The member found first going from a level of classes to the bases of all of them, for at most
the given number of levels. -/
def memberWithin (workspace : Workspace) (name : String) :
    Nat → List NodeId → List NodeId → Option (NodeId × Nat)
  | 0, _, _ => none
  | levels + 1, seen, level =>
    let fresh := freshOf seen level
    if fresh.isEmpty then none
    else match fresh.findSome? fun id => workspace.classMember? id name with
      | some member => some (member, 0)
      | none =>
        (memberWithin workspace name levels (seen ++ fresh)
          (fresh.flatMap workspace.basesOf)).map fun (member, distance) => (member, distance + 1)

def symbolCount (workspace : Workspace) : Nat :=
  (workspace.files.flatMap SourceFile.symbols).length

/-- The member of a class or of its nearest base that has it, with the distance to that base. There
are no more levels than symbols. -/
def memberOfClass (workspace : Workspace) (id : NodeId) (name : String) : Option (NodeId × Nat) :=
  workspace.memberWithin name (workspace.symbolCount + 1) [] [id]

/-- The nodes that a search from a node can come to. -/
def origins (workspace : Workspace) (id : NodeId) : List NodeId :=
  id :: workspace.files.flatMap SourceFile.symbols

/-- How many of them are not seen yet. -/
def unasked (workspace : Workspace) (id : NodeId) (seen : List NodeId) : Nat :=
  ((workspace.origins id).toFinset \ seen.toFinset).card

theorem unasked_nil_le (workspace : Workspace) (id : NodeId) :
    workspace.unasked id [] ≤ workspace.symbolCount + 1 := by
  rw [unasked, List.toFinset_nil, Finset.sdiff_empty]
  exact List.toFinset_card_le _

theorem unasked_eq_zero {workspace : Workspace} {id : NodeId} {seen : List NodeId}
    (hzero : workspace.unasked id seen = 0) : workspace.origins id ⊆ seen := by
  have hempty := Finset.sdiff_eq_empty_iff_subset.1 (Finset.card_eq_zero.1 hzero)
  exact fun node hnode => List.mem_toFinset.1 (hempty (List.mem_toFinset.2 hnode))

theorem unasked_append_lt {workspace : Workspace} {id first : NodeId} {seen fresh : List NodeId}
    (horigin : first ∈ workspace.origins id) (hnew : first ∉ seen) (hfirst : first ∈ fresh) :
    workspace.unasked id (seen ++ fresh) < workspace.unasked id seen := by
  refine Finset.card_lt_card ⟨Finset.sdiff_subset_sdiff (Finset.Subset.refl _) (by simp), ?_⟩
  intro hsub
  have hgone := hsub (Finset.mem_sdiff.2
    ⟨List.mem_toFinset.2 horigin, fun hseen => hnew (List.mem_toFinset.1 hseen)⟩)
  exact (Finset.mem_sdiff.1 hgone).2 (List.mem_toFinset.2 (List.mem_append_right _ hfirst))

section Sound

variable {environment : Environment} {stale pending : Path → Prop} {workspace : Workspace}
  (hstands : workspace.Stands environment stale pending)

include hstands

/-- A symbol is found in its file, at its place. -/
theorem Stands.locate?_iff {id : NodeId} {file : SourceFile} {index : Nat} :
    workspace.locate? id = some (file, index) ↔
      file ∈ workspace.files ∧ file.symbols[index]? = some id := by
  constructor
  · intro hlocate
    obtain ⟨node, hnode, hlocate⟩ := Option.bind_eq_some_iff.1 hlocate
    obtain ⟨-, -, hlocate⟩ := Option.bind_eq_some_iff.1 hlocate
    obtain ⟨found, hfound, hlocate⟩ := Option.bind_eq_some_iff.1 hlocate
    obtain ⟨place, hplace, hpair⟩ := Option.bind_eq_some_iff.1 hlocate
    obtain ⟨rfl, rfl⟩ := Prod.mk.inj (Option.some.inj hpair)
    obtain ⟨hlt, hat, -⟩ := List.idxOf?_eq_some_iff.1 hplace
    exact ⟨(file?_mem hfound).1, hat ▸ List.getElem?_eq_getElem hlt⟩
  · rintro ⟨hfile, hindex⟩
    obtain ⟨hlt, hat⟩ := List.getElem?_eq_some_iff.1 hindex
    have hid : id ∈ file.symbols := List.mem_of_getElem? hindex
    obtain ⟨node, hnode, hpath, -⟩ :=
      hstands.exists_node hfile (SourceFile.mem_nodes_of_symbol hid)
    have hplace : file.symbolIndex? id = some index := by
      refine List.idxOf?_eq_some_iff.2 ⟨hlt, hat, fun before hbefore heq => ?_⟩
      have hnodup := (List.nodup_cons.1 (hstands.parallel file hfile).nodup).2
      have hsame : before = index :=
        (List.nodup_append.1 hnodup).1.getElem_inj_iff.1 (heq.trans hat.symm)
      exact absurd hsame (Nat.ne_of_lt hbefore)
    simp only [locate?, hnode, hstands.kind_of_symbol hfile hid hnode, hpath,
      hstands.ordered.file?_self hfile, hplace, guard, Option.bind_eq_bind, Option.bind_some]
    rfl

/-- What a lookup finds is what the symbol declares. -/
theorem Stands.declares_of_classMember? {id member : NodeId} {name : String}
    (hmember : workspace.classMember? id name = some member) :
    workspace.Declares id name member := by
  obtain ⟨⟨file, outer⟩, hlocate, hmember⟩ := Option.bind_eq_some_iff.1 hmember
  obtain ⟨hfile, houter⟩ := hstands.locate?_iff.1 hlocate
  obtain ⟨index, hindex, hsymbol⟩ := Option.bind_eq_some_iff.1 hmember
  obtain ⟨fact, hfact, hboth, hlatest⟩ := FileFacts.exists_of_member? hindex
  exact ⟨file, hfile, outer, index, fact, houter, hsymbol, hfact, hboth, hlatest⟩

/-- A lookup finds nothing only where nothing is declared. -/
theorem Stands.classMember?_eq_none_iff {id : NodeId} {name : String} :
    workspace.classMember? id name = none ↔ ∀ member, ¬ workspace.Declares id name member := by
  constructor
  · rintro hnone member ⟨file, hfile, outer, index, fact, houter, hsymbol, hfact, hboth, -⟩
    have hlocate := hstands.locate?_iff.2 ⟨hfile, houter⟩
    rw [classMember?, hlocate] at hnone
    cases hplace : file.facts.member? outer name with
    | none => exact FileFacts.member?_eq_none_iff.1 hplace fact (List.mem_of_getElem? hfact) hboth
    | some place =>
      -- each of the facts has its node
      obtain ⟨found, hfound, -⟩ := FileFacts.exists_of_member? hplace
      have hlt : place < file.symbols.length :=
        (hstands.parallel file hfile).symbols ▸ (List.getElem?_eq_some_iff.1 hfound).1
      simp only [Option.bind_eq_bind, Option.bind_some, SourceFile.member?, hplace,
        SourceFile.symbol?, List.getElem?_eq_getElem hlt] at hnone
      cases hnone
  · intro hnone
    cases hmember : workspace.classMember? id name with
    | none => rfl
    | some member => exact absurd (hstands.declares_of_classMember? hmember) (hnone member)

/-- Bases are among the symbols of the files. -/
theorem Stands.bases_subset_origins (id : NodeId) (level : List NodeId) :
    level.flatMap workspace.basesOf ⊆ workspace.origins id := by
  intro base hbase
  obtain ⟨ancestor, -, hbase⟩ := List.mem_flatMap.1 hbase
  rw [basesOf] at hbase
  split at hbase
  · cases hbase
  · split at hbase
    · cases hbase
    · obtain ⟨-, hclass⟩ := List.mem_filter.1 hbase
      rw [isClass, Option.any_eq_true] at hclass
      obtain ⟨node, hnode, hkind⟩ := hclass
      obtain ⟨file, hfile, hsymbol⟩ := hstands.isSymbol_of_kind hnode (by
        rw [of_decide_eq_true hkind]
        rfl)
      exact List.mem_cons_of_mem _ (List.mem_flatMap.2 ⟨file, hfile, hsymbol⟩)

end Sound

/-! ### The search -/

/-- A search that has asked the classes seen, and has a level of them before it: all classes that fewer
steps lead to have been seen, and those that so many steps lead to have been or are on the level. -/
structure Frontier (workspace : Workspace) (id : NodeId) (name : String) (steps : Nat)
    (seen level : List NodeId) : Prop where
  asked : ∀ ancestor ∈ seen, workspace.classMember? ancestor name = none
  below : ∀ ancestor ∈ seen, ∃ fewer < steps, workspace.Inherits id fewer ancestor
  ahead : ∀ ancestor ∈ level, workspace.Inherits id steps ancestor
  covers : ∀ fewer ≤ steps, ∀ ancestor, workspace.Inherits id fewer ancestor →
    ancestor ∈ seen ∨ (fewer = steps ∧ ancestor ∈ level)

theorem frontier_start (workspace : Workspace) (id : NodeId) (name : String) :
    workspace.Frontier id name 0 [] [id] where
  asked := by simp
  below := by simp
  ahead := by simpa using Inherits.self
  covers := by
    intro fewer hfewer ancestor hinherits
    obtain rfl : fewer = 0 := Nat.le_zero.1 hfewer
    cases hinherits
    exact .inr ⟨rfl, List.mem_cons_self⟩

section Frontier

variable {workspace : Workspace} {id : NodeId} {name : String} {steps : Nat}
  {seen level fresh : List NodeId} (hfrontier : workspace.Frontier id name steps seen level)

include hfrontier

/-- The next level are the bases of what has not been seen of this one. -/
theorem Frontier.next (hfresh : ∀ ancestor, ancestor ∈ fresh ↔ ancestor ∈ level ∧ ancestor ∉ seen)
    (hasked : ∀ ancestor ∈ fresh, workspace.classMember? ancestor name = none) :
    workspace.Frontier id name (steps + 1) (seen ++ fresh) (fresh.flatMap workspace.basesOf) := by
  have hcovers : ∀ fewer ≤ steps, ∀ ancestor, workspace.Inherits id fewer ancestor →
      ancestor ∈ seen ++ fresh := by
    intro fewer hfewer ancestor hinherits
    rw [List.mem_append, hfresh]
    by_cases hseen : ancestor ∈ seen
    · exact .inl hseen
    · obtain ⟨-, hlevel⟩ := (hfrontier.covers fewer hfewer ancestor hinherits).resolve_left hseen
      exact .inr ⟨hlevel, hseen⟩
  refine ⟨fun ancestor hancestor => ?_, fun ancestor hancestor => ?_, fun ancestor hancestor => ?_,
    fun fewer hfewer ancestor hinherits => ?_⟩
  · exact (List.mem_append.1 hancestor).elim (hfrontier.asked ancestor) (hasked ancestor)
  · rcases List.mem_append.1 hancestor with hseen | hnew
    · obtain ⟨fewer, hfewer, hinherits⟩ := hfrontier.below ancestor hseen
      exact ⟨fewer, Nat.lt_succ_of_lt hfewer, hinherits⟩
    · exact ⟨steps, Nat.lt_succ_self steps, hfrontier.ahead ancestor ((hfresh ancestor).1 hnew).1⟩
  · obtain ⟨child, hchild, hbase⟩ := List.mem_flatMap.1 hancestor
    exact .base (hfrontier.ahead child ((hfresh child).1 hchild).1) hbase
  · rcases Nat.le_succ_iff.1 hfewer with hfewer | rfl
    · exact .inl (hcovers fewer hfewer ancestor hinherits)
    · cases hinherits with
      | @base _ child _ hchild hbase =>
        rcases List.mem_append.1 (hcovers steps (Nat.le_refl steps) child hchild) with hseen | hnew
        · -- a class that was seen before has its bases no further than this level
          obtain ⟨fewer, hfewer, hinherits⟩ := hfrontier.below child hseen
          exact .inl (hcovers (fewer + 1) hfewer ancestor (.base hinherits hbase))
        · exact .inr ⟨rfl, List.mem_flatMap.2 ⟨child, hnew, hbase⟩⟩

/-- Once a level brings nothing new, all classes above have been seen. -/
theorem Frontier.closed (hlevel : level ⊆ seen) {more : Nat} {ancestor : NodeId}
    (hinherits : workspace.Inherits id more ancestor) : ancestor ∈ seen := by
  have hcovers : ∀ fewer ≤ steps, ∀ ancestor, workspace.Inherits id fewer ancestor →
      ancestor ∈ seen := fun fewer hfewer ancestor hinherits =>
    (hfrontier.covers fewer hfewer ancestor hinherits).elim (fun h => h) fun h => hlevel h.2
  induction hinherits with
  | self => exact hcovers 0 (Nat.zero_le steps) id .self
  | base _ hbase ih =>
    obtain ⟨fewer, hfewer, hinherits⟩ := hfrontier.below _ ih
    exact hcovers (fewer + 1) hfewer _ (.base hinherits hbase)

end Frontier

/-- What a search may answer: nothing if no class above has the member, and otherwise the member of a
class at the least number of steps. -/
inductive Nearest (workspace : Workspace) (id : NodeId) (name : String) :
    Option (NodeId × Nat) → Prop
  | none (hnone : ∀ steps ancestor, workspace.Inherits id steps ancestor →
      workspace.classMember? ancestor name = none) : Nearest workspace id name none
  | some {member ancestor : NodeId} {steps : Nat} (hinherits : workspace.Inherits id steps ancestor)
      (hmember : workspace.classMember? ancestor name = some member)
      (hnearer : ∀ fewer < steps, ∀ other, workspace.Inherits id fewer other →
        workspace.classMember? other name = none) :
      Nearest workspace id name (some (member, steps))

section Search

variable {environment : Environment} {stale pending : Path → Prop} {workspace : Workspace}
  (hstands : workspace.Stands environment stale pending) (id : NodeId) (name : String)

include hstands

/-- By induction on the levels that are left: each brings a node that has not been seen, and there are
no more of these. -/
theorem Stands.nearest_memberWithin (levels : Nat) {steps : Nat} {seen level : List NodeId}
    (hfrontier : workspace.Frontier id name steps seen level)
    (hlevels : workspace.unasked id seen ≤ levels) (hlevel : level ⊆ workspace.origins id) :
    workspace.Nearest id name ((workspace.memberWithin name levels seen level).map
      fun (member, distance) => (member, steps + distance)) := by
  induction levels generalizing steps seen level with
  | zero =>
    have hseen := unasked_eq_zero (Nat.le_zero.1 hlevels)
    exact .none fun _ ancestor hinherits => hfrontier.asked ancestor
      (hfrontier.closed (fun other hother => hseen (hlevel hother)) hinherits)
  | succ levels ih =>
    have hfresh : ∀ ancestor, ancestor ∈ freshOf seen level ↔ ancestor ∈ level ∧ ancestor ∉ seen :=
      fun _ => mem_freshOf
    rw [memberWithin]
    generalize freshOf seen level = fresh at hfresh
    simp only
    split
    · rename_i hempty
      obtain rfl := List.isEmpty_iff.1 hempty
      refine .none fun _ ancestor hinherits => hfrontier.asked ancestor
        (hfrontier.closed (fun other hother => ?_) hinherits)
      by_contra hnew
      cases (hfresh other).2 ⟨hother, hnew⟩
    · rename_i hsome
      obtain ⟨first, hfirst⟩ := List.exists_mem_of_ne_nil fresh fun h => hsome (by simp [h])
      obtain ⟨hin, hnew⟩ := (hfresh first).1 hfirst
      split
      · rename_i member hfound
        obtain ⟨ancestor, hancestor, hmember⟩ := List.exists_of_findSome?_eq_some hfound
        refine .some (hfrontier.ahead ancestor ((hfresh ancestor).1 hancestor).1) hmember ?_
        intro fewer hfewer other hinherits
        have hseen := (hfrontier.covers fewer (Nat.le_of_lt hfewer) other hinherits).resolve_right
          fun h => absurd h.1 (Nat.ne_of_lt hfewer)
        exact hfrontier.asked other hseen
      · rename_i hnone
        have hlt := unasked_append_lt (hlevel hin) hnew hfirst
        have hnext := ih (hfrontier.next hfresh (List.findSome?_eq_none_iff.1 hnone))
          (Nat.le_of_lt_succ (Nat.lt_of_lt_of_le hlt hlevels)) (hstands.bases_subset_origins id fresh)
        rw [Option.map_map]
        simpa [Function.comp_def, Nat.add_assoc, Nat.add_comm 1] using hnext

/-- More levels make no difference, so the search ends of itself. -/
theorem Stands.memberWithin_eq_of_le (levels more : Nat) {seen level : List NodeId}
    (hlevels : workspace.unasked id seen ≤ levels) (hlevel : level ⊆ workspace.origins id) :
    workspace.memberWithin name (levels + more) seen level =
      workspace.memberWithin name levels seen level := by
  induction levels generalizing seen level with
  | zero =>
    have hseen := unasked_eq_zero (Nat.le_zero.1 hlevels)
    cases more with
    | zero => rfl
    | succ more =>
      have hnothing : freshOf seen level = [] :=
        List.eq_nil_iff_forall_not_mem.2 fun other hother =>
          (mem_freshOf.1 hother).2 (hseen (hlevel (mem_freshOf.1 hother).1))
      rw [memberWithin, Nat.zero_add, memberWithin, hnothing]
      rfl
  | succ levels ih =>
    have hfresh : ∀ ancestor, ancestor ∈ freshOf seen level ↔ ancestor ∈ level ∧ ancestor ∉ seen :=
      fun _ => mem_freshOf
    rw [Nat.add_right_comm, memberWithin, memberWithin]
    generalize freshOf seen level = fresh at hfresh
    cases fresh with
    | nil => rfl
    | cons first fresh =>
      obtain ⟨hin, hnew⟩ := (hfresh first).1 List.mem_cons_self
      have hlt := unasked_append_lt (hlevel hin) hnew (List.mem_cons_self (l := fresh))
      simp only [ih (Nat.le_of_lt_succ (Nat.lt_of_lt_of_le hlt hlevels))
        (hstands.bases_subset_origins id (first :: fresh))]

theorem Stands.nearest_memberOfClass :
    workspace.Nearest id name (workspace.memberOfClass id name) := by
  have hnearest := hstands.nearest_memberWithin id name (workspace.symbolCount + 1)
    (workspace.frontier_start id name) (workspace.unasked_nil_le id) (by simp [origins])
  simpa [memberOfClass] using hnearest

theorem Stands.memberWithin_eq_memberOfClass (more : Nat) :
    workspace.memberWithin name (workspace.symbolCount + 1 + more) [] [id] =
      workspace.memberOfClass id name :=
  hstands.memberWithin_eq_of_le id name _ more (workspace.unasked_nil_le id) (by simp [origins])

end Search

/-! ### Asking in turn -/

theorem freshOf_cons_of_mem {seen : List NodeId} {id : NodeId} (level : List NodeId)
    (hseen : id ∈ seen) : freshOf seen (id :: level) = freshOf seen level := by
  rw [freshOf, List.filter_cons_of_neg (by simpa using hseen), freshOf]

theorem freshOf_cons_of_notMem {seen : List NodeId} {id : NodeId} (level : List NodeId)
    (hseen : id ∉ seen) : freshOf seen (id :: level) = id :: freshOf (seen ++ [id]) level := by
  rw [freshOf, List.filter_cons_of_pos (by simpa using hseen), List.eraseDups_cons, freshOf,
    List.filter_filter]
  congr 3
  funext other
  simp [Bool.and_comm, beq_eq_decide]

theorem nodup_freshOf (seen level : List NodeId) : (freshOf seen level).Nodup := by
  induction level generalizing seen with
  | nil => exact List.nodup_nil
  | cons head level ih =>
    by_cases hseen : head ∈ seen
    · exact freshOf_cons_of_mem level hseen ▸ ih seen
    · rw [freshOf_cons_of_notMem level hseen]
      exact List.nodup_cons.2 ⟨fun hagain => (mem_freshOf.1 hagain).2 (by simp), ih _⟩

/-- The turns of one level come to a member of it, or leave the bases of the level waiting behind
what waited already. By induction on the level. -/
theorem askInTurn_level (workspace : Workspace) (name : String) (turns : Nat) (inherited : Bool)
    (seen level later : List NodeId) :
    workspace.askInTurn name (level.length + turns) seen
        (level.map (·, inherited) ++ later.map (·, true)) =
      match (freshOf seen level).findSome? (workspace.classMember? · name) with
      | some member => some (member, inherited)
      | none => workspace.askInTurn name turns (seen ++ freshOf seen level)
          ((later ++ (freshOf seen level).flatMap workspace.basesOf).map (·, true)) := by
  induction level generalizing seen later with
  | nil => simp [freshOf]
  | cons head level ih =>
    rw [List.length_cons, Nat.add_right_comm, List.map_cons, List.cons_append, askInTurn]
    by_cases hseen : head ∈ seen
    · rw [if_pos hseen, ih, freshOf_cons_of_mem level hseen]
    · rw [if_neg hseen, freshOf_cons_of_notMem level hseen, List.findSome?_cons]
      cases workspace.classMember? head name with
      | some member => rfl
      | none =>
        simp only [List.append_assoc, ← List.map_append, ih, List.flatMap_cons,
          List.singleton_append]

theorem askInTurn_of_le (workspace : Workspace) (name : String) (inherited : Bool)
    (seen : List NodeId) {level : List NodeId} {turns : Nat} (hturns : level.length ≤ turns) :
    workspace.askInTurn name turns seen (level.map (·, inherited)) =
      match (freshOf seen level).findSome? (workspace.classMember? · name) with
      | some member => some (member, inherited)
      | none => workspace.askInTurn name (turns - level.length) (seen ++ freshOf seen level)
          (((freshOf seen level).flatMap workspace.basesOf).map (·, true)) := by
  have hturn :=
    workspace.askInTurn_level name (turns - level.length) inherited seen level []
  rwa [Nat.add_sub_cancel' hturns, List.map_nil, List.append_nil, List.nil_append] at hturn

/-- How many bases are still to wait for their turn once these classes have been seen. -/
def openBases (workspace : Workspace) (seen : List NodeId) : Nat :=
  (((workspace.files.flatMap SourceFile.symbols).filter (· ∉ seen)).flatMap
    workspace.basesOf).length

/-- Only symbols of files have bases. -/
theorem basesOf_eq_nil {workspace : Workspace} {id : NodeId}
    (hid : id ∉ workspace.files.flatMap SourceFile.symbols) : workspace.basesOf id = [] := by
  rw [basesOf]
  cases hlocate : workspace.locate? id with
  | none => rfl
  | some place =>
    obtain ⟨_, -, hlocate⟩ := Option.bind_eq_some_iff.1 hlocate
    obtain ⟨_, -, hlocate⟩ := Option.bind_eq_some_iff.1 hlocate
    obtain ⟨file, hfile, hlocate⟩ := Option.bind_eq_some_iff.1 hlocate
    obtain ⟨index, hindex, -⟩ := Option.bind_eq_some_iff.1 hlocate
    obtain ⟨hlt, hat, -⟩ := List.idxOf?_eq_some_iff.1 hindex
    exact absurd (List.mem_flatMap.2 ⟨file, (file?_mem hfile).1, hat ▸ List.getElem_mem hlt⟩) hid

/-- The bases of a class that is asked are no longer to come. -/
theorem openBases_append_singleton {workspace : Workspace} {seen : List NodeId} {id : NodeId}
    (hid : id ∉ seen) :
    (workspace.basesOf id).length + workspace.openBases (seen ++ [id]) ≤
      workspace.openBases seen := by
  rw [openBases, openBases]
  generalize hsymbols : workspace.files.flatMap SourceFile.symbols = symbols
  have hless : symbols.filter (· ∉ seen ++ [id]) = (symbols.filter (· ∉ seen)).filter (· ≠ id) := by
    rw [List.filter_filter]
    congr 1
    funext other
    simp [and_comm]
  by_cases hsymbol : id ∈ symbols
  · obtain ⟨front, back, hsplit⟩ :=
      List.append_of_mem (List.mem_filter.2 ⟨hsymbol, by simpa using hid⟩ :
        id ∈ symbols.filter (· ∉ seen))
    have hsub : (symbols.filter (· ∉ seen ++ [id])).Sublist (front ++ back) := by
      rw [hless, hsplit, List.filter_append, List.filter_cons_of_neg (by simp)]
      exact List.filter_sublist.append List.filter_sublist
    have hle := (hsub.flatMap workspace.basesOf).length_le
    rw [hsplit]
    simp only [List.flatMap_append, List.flatMap_cons, List.length_append] at hle ⊢
    omega
  · rw [basesOf_eq_nil (hsymbols ▸ hsymbol), List.length_nil, Nat.zero_add, hless]
    exact (List.filter_sublist.flatMap _).length_le

theorem openBases_append {workspace : Workspace} {seen fresh : List NodeId} (hnodup : fresh.Nodup)
    (hnew : ∀ id ∈ fresh, id ∉ seen) :
    (fresh.flatMap workspace.basesOf).length + workspace.openBases (seen ++ fresh) ≤
      workspace.openBases seen := by
  induction fresh generalizing seen with
  | nil => simp
  | cons id fresh ih =>
    obtain ⟨hid, hnodup⟩ := List.nodup_cons.1 hnodup
    have hrest : (fresh.flatMap workspace.basesOf).length +
        workspace.openBases (seen ++ [id] ++ fresh) ≤ workspace.openBases (seen ++ [id]) := by
      refine ih hnodup fun other hother hseen => ?_
      rcases List.mem_append.1 hseen with hseen | hseen
      · exact hnew other (List.mem_cons_of_mem _ hother) hseen
      · exact hid (List.mem_singleton.1 hseen ▸ hother)
    have hfirst := workspace.openBases_append_singleton (hnew id List.mem_cons_self)
    rw [List.append_assoc, List.singleton_append] at hrest
    rw [List.flatMap_cons, List.length_append]
    omega

section Turns

variable {environment : Environment} {stale pending : Path → Prop} {workspace : Workspace}
  (hstands : workspace.Stands environment stale pending) (id : NodeId) (name : String)

include hstands

/-- There are no more bases than are named. -/
theorem Stands.openBases_nil_le : workspace.openBases [] ≤ workspace.baseCount := by
  have hfile : ∀ file ∈ workspace.files, (file.symbols.flatMap workspace.basesOf).length ≤
      (file.facts.symbols.flatMap SymbolFact.bases).length := by
    intro file hfile
    have hbases : List.Forall₂ (· ≤ ·) (file.symbols.map fun id => (workspace.basesOf id).length)
        (file.facts.symbols.map fun symbol => symbol.bases.length) := by
      rw [List.forall₂_map_left_iff, List.forall₂_map_right_iff]
      refine rel_of_getElem? (hstands.parallel file hfile).symbols fun index id symbol hid hsymbol => ?_
      rw [basesOf, hstands.locate?_iff.2 ⟨hfile, hid⟩]
      simp only [hsymbol, basesIn]
      exact (List.length_filter_le _ _).trans (List.length_filterMap_le _ _)
    rw [List.length_flatMap, List.length_flatMap]
    exact hbases.sum_le_sum
  have hall : openBases workspace [] =
      (workspace.files.flatMap fun file => file.symbols.flatMap workspace.basesOf).length := by
    simp [openBases, List.flatMap_assoc]
  rw [hall, baseCount, List.length_flatMap, List.length_flatMap]
  exact List.sum_le_sum hfile

/-- **Asking in turn finds what the search by levels finds**, once there are turns for all that waits.
By induction on the levels, with the turns of one level taken together. -/
theorem Stands.askInTurn_eq (levels : Nat) {turns : Nat} (inherited : Bool) {seen level : List NodeId}
    (hturns : level.length + workspace.openBases seen ≤ turns)
    (hlevels : workspace.unasked id seen ≤ levels) (hlevel : level ⊆ workspace.origins id) :
    workspace.askInTurn name turns seen (level.map (·, inherited)) =
      (workspace.memberWithin name levels seen level).map fun (member, distance) =>
        (member, inherited || decide (0 < distance)) := by
  have hnothing : ∀ turns seen, workspace.askInTurn name turns seen [] = none := by
    rintro (_ | _) _ <;> rfl
  induction levels generalizing turns inherited seen level with
  | zero =>
    have hseen := unasked_eq_zero (Nat.le_zero.1 hlevels)
    have hnone : freshOf seen level = [] :=
      List.eq_nil_iff_forall_not_mem.2 fun other hother =>
        (mem_freshOf.1 hother).2 (hseen (hlevel (mem_freshOf.1 hother).1))
    rw [workspace.askInTurn_of_le name inherited seen (by omega), hnone]
    exact hnothing _ _
  | succ levels ih =>
    rw [workspace.askInTurn_of_le name inherited seen (by omega), memberWithin]
    have hopen := workspace.openBases_append (nodup_freshOf seen level)
      fun _ hfresh => (mem_freshOf.1 hfresh).2
    have hfresh : ∀ ancestor, ancestor ∈ freshOf seen level → ancestor ∈ level ∧ ancestor ∉ seen :=
      fun _ => mem_freshOf.1
    generalize freshOf seen level = fresh at hopen hfresh
    cases fresh with
    | nil => exact hnothing _ _
    | cons first rest =>
      simp only [List.isEmpty_cons, Bool.false_eq_true, if_false]
      cases (first :: rest).findSome? (workspace.classMember? · name) with
      | some member => simp
      | none =>
        obtain ⟨hin, hunseen⟩ := hfresh first List.mem_cons_self
        have hlt := unasked_append_lt (hlevel hin) hunseen (List.mem_cons_self (l := rest))
        rw [ih true (by omega) (by omega) (hstands.bases_subset_origins id _), Option.map_map]
        simp [Function.comp_def]

/-- What is found for a class is what the levels above it have, however many turns there are. -/
theorem Stands.askInTurn_eq_memberOfClass (more : Nat) :
    workspace.askInTurn name (workspace.baseCount + 1 + more) [] [(id, false)] =
      (workspace.memberOfClass id name).map fun (member, steps) => (member, decide (0 < steps)) := by
  have hopen := hstands.openBases_nil_le
  have hwaiting : [id].length + workspace.openBases [] ≤ workspace.baseCount + 1 + more := by
    rw [List.length_singleton]
    omega
  have hasked := hstands.askInTurn_eq id name (workspace.symbolCount + 1) false hwaiting
    (workspace.unasked_nil_le id) (by simp [origins])
  simpa [memberOfClass] using hasked

end Turns

end Workspace

end CodeGraph
