import CodeGraph.Proofs.Transaction.Propagation
import CodeGraph.Proofs.Workspace.Inherit

/-!
# Members of classes in a store

In every store that transactions lead to, the search for a member ends of itself, whichever way the
bases lead, and takes the nearest class that has one.
-/

namespace CodeGraph.Store

variable {environment : Environment} {store : Store}

/-- **The search for a member of a class takes the nearest.** In a reachable store it finds nothing only
if no class that steps to bases lead to declares the name. What it finds is the last declaration in a
class at the least number of steps, together with that number, which is none exactly if the class has
the member itself. More levels of search make no difference, and asking the classes in turn finds the
same member however many turns there are, flagged if it took a step. -/
theorem members_nearest (hreachable : store.Reachable environment) (id : NodeId) (name : String) :
    (store.workspace.memberOfClass id name = none ↔ ∀ steps ancestor member,
      store.workspace.Inherits id steps ancestor →
        ¬ store.workspace.Declares ancestor name member) ∧
    (∀ member steps, store.workspace.memberOfClass id name = some (member, steps) →
      (∃ ancestor, store.workspace.Inherits id steps ancestor ∧
        store.workspace.Declares ancestor name member) ∧
      (∀ fewer ancestor other, store.workspace.Inherits id fewer ancestor →
        store.workspace.Declares ancestor name other → steps ≤ fewer) ∧
      (steps = 0 ↔ ∃ own, store.workspace.Declares id name own)) ∧
    (∀ more, store.workspace.memberWithin name (store.workspace.symbolCount + 1 + more) [] [id] =
      store.workspace.memberOfClass id name) ∧
    ∀ more, store.workspace.askInTurn name (store.workspace.baseCount + 1 + more) [] [(id, false)] =
      (store.workspace.memberOfClass id name).map fun (member, steps) =>
        (member, decide (0 < steps)) := by
  have hsound := hreachable.kept.sound
  have hnone : ∀ ancestor, store.workspace.classMember? ancestor name = none ↔
      ∀ member, ¬ store.workspace.Declares ancestor name member :=
    fun _ => hsound.classMember?_eq_none_iff
  have hnearest := hsound.nearest_memberOfClass id name
  refine ⟨?_, ?_, hsound.memberWithin_eq_memberOfClass id name,
    hsound.askInTurn_eq_memberOfClass id name⟩
  · generalize store.workspace.memberOfClass id name = answer at hnearest
    cases hnearest with
    | none hnothing =>
      exact iff_of_true rfl fun steps ancestor member hinherits =>
        (hnone ancestor).1 (hnothing steps ancestor hinherits) member
    | some hinherits hmember _ =>
      exact iff_of_false (by simp) fun hnothing =>
        hnothing _ _ _ hinherits (hsound.declares_of_classMember? hmember)
  · intro member steps hanswer
    rw [hanswer] at hnearest
    cases hnearest with
    | @some _ ancestor _ hinherits hmember hnearer =>
      have hdeclares := hsound.declares_of_classMember? hmember
      have hleast : ∀ fewer ancestor other, store.workspace.Inherits id fewer ancestor →
          store.workspace.Declares ancestor name other → steps ≤ fewer := by
        intro fewer ancestor other hinherits hother
        by_contra hlt
        exact (hnone ancestor).1 (hnearer fewer (Nat.lt_of_not_le hlt) ancestor hinherits) other
          hother
      refine ⟨⟨ancestor, hinherits, hdeclares⟩, hleast, ?_, ?_⟩
      · rintro rfl
        cases hinherits
        exact ⟨member, hdeclares⟩
      · rintro ⟨own, hown⟩
        exact Nat.le_zero.1 (hleast 0 id own .self hown)

/-! ### Two classes that inherit from each other -/

namespace Circular

open Importing

/-- The import of a class by its name and a class that inherits from it, with a body. -/
def inheriting (body : Tree) : Tree :=
  node "module" ⟨0, 52⟩ none
    [node "import_from_statement" ⟨0, 15⟩ none
      [node "dotted_name" ⟨5, 6⟩ (some "module_name") [],
        node "dotted_name" ⟨14, 15⟩ (some "name") []],
    node "class_definition" ⟨16, 51⟩ none
      [node "identifier" ⟨22, 23⟩ (some "name") [],
        node "argument_list" ⟨23, 26⟩ (some "superclasses")
          [node "identifier" ⟨24, 25⟩ none []],
        body]]

/-- A class without members and one with a function. -/
def parse (text : String) : Tree :=
  if text = "from b import B\nclass A(B):\n  pass\n" then
    inheriting (node "block" ⟨30, 34⟩ (some "body") [])
  else
    inheriting (node "block" ⟨30, 51⟩ (some "body")
      [node "function_definition" ⟨30, 51⟩ none
        [node "identifier" ⟨34, 35⟩ (some "name") [],
          node "block" ⟨47, 51⟩ (some "body") []]])

def parsing : Environment := ⟨{}, fun _ => parse⟩

/-- The classes in two files that import each other. -/
def circular : Store :=
  imported parsing ⟨⟨"a.py"⟩, "from b import B\nclass A(B):\n  pass\n"⟩
    ⟨⟨"b.py"⟩, "from a import A\nclass B(A):\n  def f(self):\n    pass\n"⟩

end Circular

open Circular Importing

/-- The function of the base is found one step away, although two steps lead back to the class. A name
that neither declares is looked for in vain. -/
theorem members_nearest_circular :
    circular.workspace.memberOfClass 2 "f" = some (7, 1) ∧
      circular.workspace.nearestMember? 2 "f" = some (7, true) ∧ circular.workspace.Inherits 2 2 2 ∧
      (∃ ancestor, circular.workspace.Inherits 2 1 ancestor ∧
        circular.workspace.Declares ancestor "f" 7) ∧
      (∀ own, ¬ circular.workspace.Declares 2 "f" own) ∧
      ∀ steps ancestor member, circular.workspace.Inherits 2 steps ancestor →
        ¬ circular.workspace.Declares ancestor "g" member := by
  obtain ⟨hfound, hmissing, hbase, hback⟩ :
      circular.workspace.memberOfClass 2 "f" = some (7, 1) ∧
        circular.workspace.memberOfClass 2 "g" = none ∧
        6 ∈ circular.workspace.basesOf 2 ∧ 2 ∈ circular.workspace.basesOf 6 := by decide +kernel
  have hreachable : circular.Reachable parsing := reachable_imported ..
  obtain ⟨-, hnearest, -, hturns⟩ := members_nearest hreachable 2 "f"
  obtain ⟨hdeclared, -, hown⟩ := hnearest 7 1 hfound
  have hasked : circular.workspace.nearestMember? 2 "f" = some (7, true) := by
    have hflagged := hturns 0
    rwa [hfound] at hflagged
  refine ⟨hfound, hasked, .base (.base .self hbase) hback, hdeclared, fun own hdeclares => ?_,
    (members_nearest hreachable 2 "g").1.1 hmissing⟩
  exact absurd (hown.2 ⟨own, hdeclares⟩) (by decide)

end CodeGraph.Store
