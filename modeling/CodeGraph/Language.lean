import CodeGraph.Path

/-!
# Languages

The languages whose files are understood, told apart by file extension.
-/

namespace CodeGraph

inductive Language where
  | python
  | javascript
  | typescript
  | go
  | rust
  | java
  | other
  deriving DecidableEq, Repr

namespace Language

def all : List Language :=
  [python, javascript, typescript, go, rust, java, other]

def rank : Language → Nat
  | python => 0
  | javascript => 1
  | typescript => 2
  | go => 3
  | rust => 4
  | java => 5
  | other => 6

def name : Language → String
  | python => "python"
  | javascript => "javascript"
  | typescript => "typescript"
  | go => "go"
  | rust => "rust"
  | java => "java"
  | other => "other"

/-- The name with the language's own capitals. -/
def title : Language → String
  | python => "Python"
  | javascript => "JavaScript"
  | typescript => "TypeScript"
  | go => "Go"
  | rust => "Rust"
  | java => "Java"
  | other => "Other"

def ofName? (name : String) : Option Language :=
  all.find? fun language => language.name = name

theorem ofName?_name (language : Language) : ofName? language.name = some language := by
  cases language <;> decide

def extensions : Language → List String
  | python => ["py", "pyi"]
  | javascript => ["js", "jsx", "mjs", "cjs"]
  | typescript => ["ts", "tsx", "mts", "cts"]
  | go => ["go"]
  | rust => ["rs"]
  | java => ["java"]
  | other => []

def ofPath (path : Path) : Language :=
  match path.extension? with
  | none => other
  | some suffix => (all.find? fun language => suffix ∈ language.extensions).getD other

def isSupported (language : Language) : Bool :=
  language ≠ other

end Language

end CodeGraph
