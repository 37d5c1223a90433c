import CodeGraph.Facts.Go
import CodeGraph.Facts.Java
import CodeGraph.Facts.Python
import CodeGraph.Facts.Rust
import CodeGraph.Facts.TypeScript

/-!
# Extraction

From a tree and its text to the facts about the file, language by language. Trees with faults give
fewer facts, never none.
-/

namespace CodeGraph

namespace Language

/-- The grammar for a file of the language; files with the extension `tsx` have their own. -/
def grammar? (language : Language) (path : Path) : Option Grammar :=
  match language with
  | python => some .python
  | javascript => some .javascript
  | typescript => some (if path.extension? = some "tsx" then .tsx else .typescript)
  | go => some .go
  | rust => some .rust
  | java => some .java
  | other => none

/-- What happens at one node of a tree. -/
def step : Language → Visit → Visit
  | python => Python.step
  | javascript => Ecma.step
  | typescript => TypeScript.step
  | go => Go.step
  | rust => Rust.step
  | java => Java.step
  | other => fun _ _ => pure ()

/-- The words that stand for the enclosing instance. -/
def selfNames : Language → List String
  | python => ["self", "cls"]
  | javascript | typescript | java => ["this"]
  | rust => ["self"]
  | go | other => []

end Language

def FileFacts.extract (language : Language) (text : String) (tree : Tree) : FileFacts :=
  let place : Place := { text, selfNames := language.selfNames }
  let walk := Walk.unroll language.step tree.height tree
  let (_, facts) := (walk.run place).run (FileFacts.empty language (Text.size text))
  ({ facts with errorRanges := tree.errorRanges }).markExports

end CodeGraph
