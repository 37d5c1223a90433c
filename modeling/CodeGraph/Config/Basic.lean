import CodeGraph.Language

/-!
# Settings

What a project may set: where it lies, where each language looks for modules, what is left out, and
the limits of the engine.
-/

namespace CodeGraph

/-- A place to look for modules: the directory of the importing file, or the source roots. -/
inductive ResolutionStep where
  | packageRelative
  | sourceRoots
  deriving DecidableEq, Repr

structure LanguageConfig where
  sourceRoots : List Path := [⟨"."⟩]
  resolutionOrder : List ResolutionStep := [.packageRelative, .sourceRoots]
  /-- The module path under which the project itself is known. -/
  modulePath : Option String := none
  deriving DecidableEq, Repr

structure Config where
  root : Path := ⟨"."⟩
  languages : List (Language × LanguageConfig) := []
  exclude : List String := ["**/.git/**", "**/node_modules/**", "**/target/**"]
  parserWorkers : Nat := 0
  writeThrough : Bool := false
  editHistory : Nat := 64
  defaultDepth : Nat := 8
  deriving DecidableEq, Repr

namespace Config

/-- The settings of a language, or the usual ones. -/
def language (config : Config) (language : Language) : LanguageConfig :=
  (config.languages.lookup language).getD {}

/-- Languages are kept in the order in which they are declared. -/
def withLanguage (config : Config) (language : Language) (settings : LanguageConfig) : Config :=
  let before := config.languages.filter fun entry => entry.1.rank < language.rank
  let after := config.languages.filter fun entry => language.rank < entry.1.rank
  { config with languages := before ++ [(language, settings)] ++ after }

end Config

end CodeGraph
