import CodeGraph.Import.Plan
import CodeGraph.Text.Alphanumeric

/-!
# Respelling imports

When a file moves, the imports that point at it are spelled anew, so that they point at its new
place. Only Python, JavaScript and TypeScript spell imports by place.
-/

namespace CodeGraph.Respell

open ModulePlan

def commonPart : List Component → List Component → List Component
  | left :: lefts, right :: rights => if left = right then left :: commonPart lefts rights else []
  | _, _ => []

/-- The names of the module a Python file defines, seen from a directory. -/
def pythonModule? (path base : Path) : Option (List String) := do
  let rest ← Path.dropComponents? base.components path.components
  let file ← rest.getLast?
  let stem ← Text.dropTail? ".py" file.text
  let packages := rest.dropLast.map Component.text
  return if stem = "__init__" then packages else packages ++ [stem]

/-- `import a` or `import a.b`: the importer names the module by its path. -/
def bindsModulePath (fact : ImportFact) : Bool :=
  fact.member.isNone && fact.renamed.isNone && !fact.wildcard &&
    fact.localName = some fact.specifier

def pythonRelative? (importer newPath : Path) : Option String := do
  let directory := (parentDir importer).components
  let common := commonPart directory newPath.components
  let names ← pythonModule? newPath (Path.ofComponents common)
  let dots := List.replicate (directory.length - common.length + 1) '.'
  return String.ofList dots ++ Text.join "." names

/-- A plain `import a` keeps the name `a`; a dotted name cannot be kept, so its uses change too. -/
def python? (importer : Path) (fact : ImportFact) (newPath : Path) (config : LanguageConfig) :
    Option String :=
  let specifier := fact.specifier
  if Text.startsWith "." specifier then pythonRelative? importer newPath
  else do
    let names ← (searchDirs importer config).findSome? fun base =>
      (pythonModule? newPath base).filter fun names => !names.isEmpty
    let name := Text.join "." names
    if bindsModulePath fact && !specifier.toList.contains '.' && name ≠ specifier then
      return name ++ " as " ++ specifier
    else return name

/-- The way from a directory to a path, written with slashes. -/
def relativePath (source target : List Component) : String :=
  let common := commonPart source target
  let ups := List.replicate (source.length - common.length) ".."
  let names := (target.drop common.length).filterMap fun
    | .named name => some name
    | _ => none
  Text.join "/" (ups ++ names)

/-- The path a specifier names: with its extension, as a directory of an index file, or bare,
whichever way it was named before. -/
def ecmaTarget (specifier : String) (newPath : Path) : Path :=
  if hasKnownExtension ⟨specifier⟩ then newPath
  else if newPath.stem? = some "index" ∧ (Path.mk specifier).fileName? ≠ some "index" then
    parentDir newPath
  else newPath.withExtension ""

def ecma? (importer : Path) (fact : ImportFact) (spelled : String) (newPath : Path) :
    Option String := do
  if !isRelative fact.specifier then failure
  let quote ← spelled.toList.head?
  if quote ∉ ['"', '\'', '\x60'] then failure
  let relative := relativePath (parentDir importer).components
    (ecmaTarget fact.specifier newPath).components
  let shown := if Text.startsWith "../" relative then relative
    else if relative = "" then "." else "./" ++ relative
  return String.ofList (quote :: shown.toList ++ [quote])

/-- The new text of a specifier now spelled `spelled`, once its target lies at `newPath`. -/
def specifier? (language : Language) (importer : Path) (fact : ImportFact) (spelled : String)
    (newPath : Path) (config : LanguageConfig) : Option String :=
  match language with
  | .python => python? importer fact newPath config
  | .javascript | .typescript => ecma? importer fact spelled newPath
  | .go | .rust | .java | .other => none

/-- Where a reference spells out the specifier, as a whole name. -/
def moduleUse? (specifier text : String) (reference : ReferenceFact) : Option ByteRange := do
  let start := reference.target.range.start
  let stop := start + Text.size specifier
  let rest ← Text.slice? text stop (Text.size text)
  let used ← Text.slice? text start stop
  if used = specifier ∧ !rest.toList.head?.any Text.isIdentifierPart then return ⟨start, stop⟩
  else failure

def mentions (names : List String) (reference : ReferenceFact) : Bool :=
  reference.kind = .name && names.isPrefixOf (reference.target.name :: reference.target.path)

/-- The uses `a.b` of a module imported by `import a.b`, each once and in order. -/
def moduleUses (language : Language) (fact : ImportFact) (references : List ReferenceFact)
    (text newModule : String) : List (ByteRange × String) :=
  let specifier := fact.specifier
  if language = .python ∧ specifier.toList.contains '.' ∧ bindsModulePath fact then
    let found := (references.filter (mentions (Text.split '.' specifier))).filterMap
      (moduleUse? specifier text)
    let ordered := (found.mergeSort fun left right => left.start ≤ right.start).eraseDups
    ordered.map fun range => (range, newModule)
  else []

end CodeGraph.Respell
