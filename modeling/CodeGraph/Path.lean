import CodeGraph.Text.Bytes

/-!
# Paths

A path is kept as it was spelled. What it means is its list of components: separators may be
doubled, may trail, and a `.` counts only at the very start. Two spellings with the same components
are the same path, and `tidy` picks one spelling for all of them.
-/

namespace CodeGraph

structure Path where
  text : String
  deriving DecidableEq, Repr, Inhabited

inductive Component where
  | root
  | current
  | parent
  | named (name : String)
  deriving DecidableEq, Repr

namespace Component

def text : Component → String
  | root => "/"
  | current => "."
  | parent => ".."
  | named name => name

def rank : Component → Nat
  | root => 0
  | current => 1
  | parent => 2
  | named _ => 3

def compare : Component → Component → Ordering
  | named left, named right => Text.compare left right
  | left, right => Ord.compare left.rank right.rank

end Component

namespace Path

def ofPart? (part : String) : Option Component :=
  if part = "" ∨ part = "." then none
  else if part = ".." then some .parent
  else some (.named part)

def isAbsolute (path : Path) : Bool :=
  path.text.toList.head? = some '/'

/-- A leading `.` is a component, and so is the root; every other empty or `.` part is nothing. -/
def components (path : Path) : List Component :=
  let chars := path.text.toList
  let parts := (Text.splitChars '/' chars).map String.ofList
  let lead := if chars.head? = some '/' then [Component.root]
    else if parts.head? = some "." then [Component.current] else []
  lead ++ parts.filterMap ofPart?

def same (left right : Path) : Bool :=
  left.components = right.components

def compareComponents : List Component → List Component → Ordering
  | [], [] => .eq
  | [], _ :: _ => .lt
  | _ :: _, [] => .gt
  | left :: lefts, right :: rights => (left.compare right).then (compareComponents lefts rights)

/-- Paths are ordered component by component. -/
def compare (left right : Path) : Ordering :=
  compareComponents left.components right.components

def le (left right : Path) : Bool :=
  left.compare right != .gt

def ofComponents : List Component → Path
  | .root :: rest => ⟨"/" ++ Text.join "/" (rest.map Component.text)⟩
  | components => ⟨Text.join "/" (components.map Component.text)⟩

/-- The one spelling chosen among those with the same components. -/
def tidy (path : Path) : Path :=
  ofComponents path.components

def ofNames (names : List String) : Path :=
  ⟨Text.join "/" names⟩

/-- The components between slashes; the root itself is written as a slash. -/
def display (path : Path) : String :=
  Text.join "/" (path.components.map Component.text)

def step : Option (List String) → Component → Option (List String)
  | none, _ => none
  | some walked, .root => some walked
  | some walked, .current => some walked
  | some walked, .named name => some (name :: walked)
  | some (_ :: walked), .parent => some walked
  | some [], .parent => none

/-- Where a walk along the components ends, innermost name first; none once it steps above the
start. -/
def walk (components : List Component) : Option (List String) :=
  components.foldl step (some [])

/-- The path without `.` and `..`, unless it would climb above its start. -/
def normalize? (path : Path) : Option Path :=
  (walk path.components).map fun walked => ofNames walked.reverse

/-- A path seen from a directory: absolute paths stand for themselves. -/
def join (base : Path) (path : String) : Path :=
  if path.toList.head? = some '/' then ⟨path⟩
  else if base.text = "" ∨ base.text.toList.getLast? = some '/' then ⟨base.text ++ path⟩
  else ⟨base.text ++ "/" ++ path⟩

def parent? (path : Path) : Option Path :=
  match path.components.getLast? with
  | none => none
  | some .root => none
  | some _ => some (ofComponents path.components.dropLast)

def fileName? (path : Path) : Option String :=
  match path.components.getLast? with
  | some (.named name) => some name
  | _ => none

/-- A name before and after its last dot. A dot in front does not count. -/
def splitName (name : String) : String × Option String :=
  match Text.splitLast? '.' name with
  | none => (name, none)
  | some (stem, suffix) => if stem = "" then (name, none) else (stem, some suffix)

def stem? (path : Path) : Option String :=
  path.fileName?.map fun name => (splitName name).1

def extension? (path : Path) : Option String :=
  path.fileName?.bind fun name => (splitName name).2

def withExtension (path : Path) (suffix : String) : Path :=
  match path.stem? with
  | none => path
  | some stem =>
    let name := if suffix = "" then stem else stem ++ "." ++ suffix
    ofComponents (path.components.dropLast ++ [.named name])

def dropComponents? : List Component → List Component → Option (List Component)
  | [], rest => some rest
  | _ :: _, [] => none
  | base :: bases, head :: rest => if base = head then dropComponents? bases rest else none

/-- The path as seen from `base`, when it lies below it. -/
def relativeTo? (path base : Path) : Option Path :=
  (dropComponents? base.components path.components).map ofComponents

def startsWith (path base : Path) : Bool :=
  (dropComponents? base.components path.components).isSome

/-- The place inside a project that a path means: absolute paths lie under the root, and no path
leads outside or to the root itself. -/
def inProject? (root path : Path) : Option Path := do
  let relative ← if path.isAbsolute then path.relativeTo? root else some path
  let normalized ← relative.normalize?
  if normalized.text = "" then none else some normalized

end Path

end CodeGraph
