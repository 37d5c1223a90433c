import CodeGraph.Parsed
import CodeGraph.Proofs.Facts.Ecma
import CodeGraph.Proofs.Facts.Go
import CodeGraph.Proofs.Facts.Java
import CodeGraph.Proofs.Facts.Python
import CodeGraph.Proofs.Facts.Rust

/-!
# Extracted facts are well formed

Whatever tree a parser makes of a text, the facts read from it are well formed. The grammars guarantee
that a member access has an object, and so the walk that reads them comes to an end by itself.
-/

namespace CodeGraph

open Walk

theorem Language.keeps_step (language : Language) {visit : Visit}
    (hvisit : ∀ node, Keeps 0 (visit node)) (node : Tree) :
    Keeps 0 (language.step visit node) := by
  cases language with
  | python => exact Python.keeps_step hvisit node
  | javascript => exact Ecma.keeps_step hvisit node
  | typescript => exact TypeScript.keeps_step hvisit node
  | go => exact Go.keeps_step hvisit node
  | rust => exact Rust.keeps_step hvisit node
  | java => exact Java.keeps_step hvisit node
  | other => exact keeps_pure ()

/-- How the grammars of the language spell member access. -/
def Language.memberShape? : Language → Option MemberShape
  | python => some Python.attributeShape
  | javascript | typescript => some Ecma.memberShape
  | go => some Go.selectorShape
  | rust => some Rust.fieldShape
  | java => some Java.accessShape
  | other => none

/-- What the grammars guarantee of a node: a member access has its object. -/
def Language.Carries (language : Language) (node : Tree) : Prop :=
  ∀ shape, language.memberShape? = some shape → shape.Carries node

theorem Language.descends_step (language : Language) :
    Tree.Descends language.Carries language.step := by
  intro node left right hcarries hagree
  cases language with
  | python => exact Python.descends_step node left right (hcarries _ rfl) hagree
  | javascript => exact Ecma.descends_step node left right (hcarries _ rfl) hagree
  | typescript => exact TypeScript.descends_step node left right (hcarries _ rfl) hagree
  | go => exact Go.descends_step node left right (hcarries _ rfl) hagree
  | rust => exact Rust.descends_step node left right (hcarries _ rfl) hagree
  | java => exact Java.descends_step node left right (hcarries _ rfl) hagree
  | other => rfl

namespace FileFacts

theorem wellFormed_empty (language : Language) (length : Nat) :
    (empty language length).WellFormed := by
  refine ⟨?_, ?_, ?_, ?_, Nat.one_pos⟩
  · intro index symbol hsymbol
    cases hsymbol
  · intro id scope hscope
    rw [ScopeTree.scope?, empty, ScopeTree.ofRange, List.getElem?_singleton] at hscope
    split at hscope
    on_goal 2 => cases hscope
    rename_i hroot
    subst hroot
    cases hscope
    refine ⟨fun hne => absurd rfl hne, ?_, ?_, ?_, ?_⟩
    · intro owner howner
      cases howner
    · intro name index hdefinition
      cases hdefinition
    · intro name index himport
      cases himport
    · intro index hindex
      cases hindex
  · intro fact hfact
    cases hfact
  · intro reference hreference
    cases hreference

/-- The walk over a whole tree, started in the module with nothing collected yet. -/
theorem keeps_walk (language : Language) (text : String) (tree : Tree) :
    let walked := (unroll language.step tree.height tree { text, selfNames := language.selfNames }
      (empty language (Text.size text))).2
    walked.WellFormed ∧ (empty language (Text.size text)).Grows walked := by
  set place : Place := { text, selfNames := language.selfNames }
  have hfits : place.Fits (empty language (Text.size text)) := by
    refine ⟨Nat.one_pos, ?_⟩
    intro owner howner
    cases howner
  obtain ⟨hformed, hgrows, -⟩ := keeps_unroll (fun _ hvisit => language.keeps_step hvisit)
    tree.height tree place _ (wellFormed_empty language (Text.size text)) hfits (Nat.zero_le _)
  exact ⟨hformed, hgrows⟩

/-- Whatever tree a parser makes of a text. -/
theorem wellFormed_extract (language : Language) (text : String) (tree : Tree) :
    (extract language text tree).WellFormed := by
  obtain ⟨hformed, -⟩ := keeps_walk language text tree
  set walked := (unroll language.step tree.height tree { text, selfNames := language.selfNames }
    (empty language (Text.size text))).2
  have hranges : { walked with errorRanges := tree.errorRanges : FileFacts }.WellFormed :=
    hformed.congr rfl rfl rfl rfl
  refine hranges.mapSymbols (List.length_map _) ?_
  intro index now hnow
  rw [List.getElem?_map] at hnow
  obtain ⟨symbol, hsymbol, rfl⟩ := Option.map_eq_some_iff.1 hnow
  refine ⟨symbol, hsymbol, ?_⟩
  split <;> exact ⟨rfl, rfl, rfl, rfl, rfl⟩

/-- The module is a scope below no other. -/
theorem exists_root_extract (language : Language) (text : String) (tree : Tree) :
    ∃ root, (extract language text tree).scopes.rootScope? = some root ∧ root.parent = none := by
  have hroot : (extract language text tree).scopes.rootScope?.map Scope.parent = some none :=
    (keeps_walk language text tree).2.root
  exact Option.map_eq_some_iff.1 hroot

/-- **Extraction ends, with well-formed facts.** Where every member access has its object, the walk
never gets below the levels of the tree, so how it would go on there makes no difference. Every index in
the facts leads to what it stands for, and the module is a scope below no other. -/
theorem extract_ends_wellFormed (language : Language) (text : String) {tree : Tree}
    (hcarries : tree.Everywhere language.Carries) :
    (∀ last fuel, tree.height ≤ fuel →
      language.step^[fuel] last tree = unroll language.step tree.height tree) ∧
    (extract language text tree).WellFormed ∧
    ∃ root, (extract language text tree).scopes.rootScope? = some root ∧ root.parent = none := by
  refine ⟨fun last fuel hfuel => ?_, wellFormed_extract language text tree,
    exists_root_extract language text tree⟩
  rw [unroll_eq_iterate]
  exact language.descends_step.iterate_eq hcarries _ _ hfuel le_rfl

theorem extract_ends_wellFormed_member :
    let node (kind : String) (start stop : Nat) (field : Option String) (children : List Tree) :
      Tree := ⟨kind, true, false, false, false, ⟨start, stop⟩, field, children⟩
    let tree := node "module" 0 3 none [node "attribute" 0 3 none
      [node "identifier" 0 1 (some "object") [], node "identifier" 2 3 (some "attribute") []]]
    (∀ last, Language.python.step^[5] last tree = unroll Language.python.step 3 tree) ∧
      (extract .python "a.b" tree).WellFormed := by
  intro node tree
  have hcarries : tree.Everywhere Language.python.Carries := by
    refine Tree.everywhere_iff.2 ⟨by rintro _ ⟨⟩; decide, List.forall_mem_singleton.2 ?_⟩
    refine Tree.everywhere_iff.2 ⟨by rintro _ ⟨⟩; decide, List.forall_mem_cons.2 ⟨?_, ?_⟩⟩
    · exact Tree.everywhere_iff.2 ⟨by rintro _ ⟨⟩; decide, nofun⟩
    · refine List.forall_mem_singleton.2 ?_
      exact Tree.everywhere_iff.2 ⟨by rintro _ ⟨⟩; decide, nofun⟩
  obtain ⟨hends, hformed, -⟩ := extract_ends_wellFormed .python "a.b" hcarries
  exact ⟨fun last => hends last 5 (by decide), hformed⟩

end FileFacts

theorem Parsed.wellFormed_facts (parsed : Parsed) : parsed.facts.WellFormed :=
  FileFacts.wellFormed_extract parsed.language parsed.text parsed.tree

end CodeGraph
