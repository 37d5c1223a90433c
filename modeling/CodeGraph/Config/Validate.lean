import CodeGraph.Config.Basic
import CodeGraph.Glob.Match
import CodeGraph.Glob.Parse

/-!
# Checking the settings

Settings are checked language by language, in the order in which languages are declared, and then
pattern by pattern; the depth of the patterns is checked when all have been read. The first fault is
the one reported.
-/

namespace CodeGraph

inductive ConfigError where
  | unreadable
  | malformed
  | badPattern (pattern : String) (error : GlobError)
  | deepPattern (patterns : List String) (error : Glob.DepthError)
  | emptyOrder (language : Language)
  | absoluteRoot (root : Path)
  deriving DecidableEq, Repr

/-- The fault in words; what cannot be read or parsed has none of its own. -/
def ConfigError.message? : ConfigError → Option String
  | unreadable | malformed => none
  | badPattern pattern error =>
    some ("invalid exclude pattern \x60" ++ pattern ++ "\x60: error parsing glob '" ++ pattern ++
      "': " ++ error.message)
  | deepPattern patterns error =>
    some ("invalid exclude pattern \x60" ++ Text.join ", " patterns ++ "\x60: " ++ error.message)
  | emptyOrder language =>
    some ("invalid config: " ++ language.name ++ " has an empty resolution_order")
  | absoluteRoot root =>
    some ("invalid config: source root " ++ root.text ++
      " must be relative to the project root")

namespace Config

def checkLanguage (entry : Language × LanguageConfig) : Except ConfigError Unit := do
  let (language, settings) := entry
  if settings.resolutionOrder.isEmpty then throw (.emptyOrder language)
  if let some root := settings.sourceRoots.find? Path.isAbsolute then throw (.absoluteRoot root)

def parsePattern (pattern : String) : Except ConfigError Glob :=
  (Glob.parse pattern).mapError (ConfigError.badPattern pattern)

/-- The patterns of what is left out. -/
def excludedGlobs (config : Config) : Except ConfigError (List Glob) := do
  let globs ← config.exclude.mapM parsePattern
  (Glob.checkDepth globs).mapError (.deepPattern config.exclude)
  return globs

def validate (config : Config) : Except ConfigError Unit := do
  config.languages.forM checkLanguage
  let _ ← config.excludedGlobs

end Config

end CodeGraph
