import CodeGraph.Proofs.Transaction.Reachable
import CodeGraph.Proofs.Workspace.Replay
import CodeGraph.Proofs.Workspace.Strongest

/-!
# The uses of a file

Linking a file looks at scopes, symbols, imports and nodes, never at the uses that it writes. So it
can be done at any time and in any order of the references, and doing it twice is doing it once.
-/

namespace CodeGraph.Store

variable {environment : Environment} {store : Store}

/-- **Linking a file makes its uses the ones it should have, and nothing else.** In a reachable store
the uses that leave the file are then exactly the ones it called for before, with the evidence and the
confidence of the surest reference. Linking it once more leaves the workspace as it is, and the order of
the references in any file makes no difference. -/
theorem uses_linked (hreachable : store.Reachable environment) {file : SourceFile}
    (hfile : file ∈ store.workspace.files) :
    ∃ graph, store.workspace.linkFile file.path = .ok { store.workspace with graph } ∧
      Workspace.Links store.workspace file graph ∧
      Workspace.linkFile { store.workspace with graph } file.path =
        .ok { store.workspace with graph } ∧
      ∀ references : SourceFile → List ReferenceFact,
        (∀ other ∈ store.workspace.files, (references other).Perm other.facts.references) →
        ∃ reordered, (store.workspace.refer references).linkFile file.path =
            .ok { store.workspace.refer references with graph := reordered } ∧
          (∀ id, reordered.node? id = graph.node? id) ∧
          ∀ key, reordered.edge? key = graph.edge? key := by
  have hsound := hreachable.kept.sound
  obtain ⟨graph, hrun, hrelinked⟩ := hsound.exists_relinked hfile
    (store.workspace.strongest_desiredEdges file).keys fun edge hedge =>
      hsound.isUseOf_desiredEdges (List.mem_map_of_mem hedge)
  have hafter : Workspace.Sound environment { store.workspace with graph } :=
    (hrelinked.adjusted hsound hfile).stands hsound
  refine ⟨graph, Workspace.linkFile_of_relinked (hsound.ordered.file?_self hfile) hrun,
    hrelinked.links, Workspace.linkFile_eq_self hafter fun other hother hpath => ?_,
    fun references hsame => hsound.exists_linkFile_refer hfile (hsame file hfile) hrelinked⟩
  obtain rfl := hsound.ordered.eq_of_path hother hfile hpath
  exact hrelinked.exact hsound hfile

/-! ### A variable that is used twice -/

namespace Twice

open Importing

/-- A class with a function that uses a variable of the class, by its name in a text and then through
the object. -/
def text : String :=
  "class A:\n  x = 1\n  def f(self):\n    getattr(self,\"x\")\n    self.x\n"

def parse (_ : String) : Tree :=
  let lookup := node "call" ⟨36, 53⟩ none
    [node "identifier" ⟨36, 43⟩ (some "function") [],
      node "argument_list" ⟨43, 53⟩ (some "arguments")
        [node "identifier" ⟨44, 48⟩ none [], node "string" ⟨49, 52⟩ none []]]
  let member := node "attribute" ⟨58, 64⟩ none
    [node "identifier" ⟨58, 62⟩ (some "object") [],
      node "identifier" ⟨63, 64⟩ (some "attribute") []]
  node "module" ⟨0, 65⟩ none [node "class_definition" ⟨0, 64⟩ none
    [node "identifier" ⟨6, 7⟩ (some "name") [], node "block" ⟨11, 64⟩ (some "body")
      [node "assignment" ⟨11, 16⟩ none [node "identifier" ⟨11, 12⟩ (some "left") []],
        node "function_definition" ⟨19, 64⟩ none
          [node "identifier" ⟨23, 24⟩ (some "name") [],
            node "parameters" ⟨24, 30⟩ (some "parameters") [node "identifier" ⟨25, 29⟩ none []],
            node "block" ⟨36, 64⟩ (some "body") [lookup, member]]]]]

def parsing : Environment := ⟨{}, fun _ => parse⟩

/-- The file alone. -/
def used : Store :=
  (process parsing {} 0 (.add ⟨"a.py"⟩ text)).1

theorem reachable_used : used.Reachable parsing := by
  rw [used]
  exact .process (.empty {}) 0 _

end Twice

open Twice

/-- The use through the object is surer than the one by a text. It stays, whichever comes first. -/
theorem uses_linked_twice : ∃ graph,
    used.workspace.linkFile ⟨"a.py"⟩ = .ok { used.workspace with graph } ∧
      graph.edge? ⟨4, 3, .references⟩ = some (.dynamic 4 3 .ownMember) ∧
      ∃ reordered, (used.workspace.refer fun file => file.facts.references.reverse).linkFile ⟨"a.py"⟩ =
          .ok { used.workspace.refer fun file => file.facts.references.reverse with
            graph := reordered } ∧
        reordered.edge? ⟨4, 3, .references⟩ = some (.dynamic 4 3 .ownMember) := by
  obtain ⟨file, hfile, hpath, huser, hdesired⟩ : ∃ file ∈ used.workspace.files,
      file.path = ⟨"a.py"⟩ ∧ 4 ∈ file.symbols ∧
        Edge.dynamic 4 3 .ownMember ∈ used.workspace.desiredEdges file := by decide +kernel
  obtain ⟨graph, hrun, hlinks, -, horder⟩ := uses_linked reachable_used hfile
  obtain ⟨reordered, hreordered, -, hsame⟩ :=
    horder _ fun file _ => file.facts.references.reverse_perm
  have hedge : graph.edge? ⟨4, 3, .references⟩ = some (.dynamic 4 3 .ownMember) :=
    (hlinks.uses _ ⟨.inr huser, .inl rfl⟩ _).2 ⟨hdesired, rfl⟩
  rw [hpath] at hrun hreordered
  exact ⟨graph, hrun, hedge, reordered, hreordered, (hsame _).trans hedge⟩

end CodeGraph.Store
