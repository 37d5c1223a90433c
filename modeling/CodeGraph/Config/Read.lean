import CodeGraph.Config.Validate
import CodeGraph.Disk.Basic
import CodeGraph.Toml.Parse

/-!
# Reading settings

Settings from a TOML text or file. Keys that mean nothing are passed over; a key with a value of the
wrong kind makes the whole text invalid.
-/

namespace CodeGraph

namespace ResolutionStep

def ofName? : String → Option ResolutionStep
  | "package_relative" => some packageRelative
  | "source_roots" => some sourceRoots
  | _ => none

/-- A step is given by its name, or as a table in which the name stands over nothing. -/
def ofToml? : Toml → Option ResolutionStep
  | .string name => ofName? name
  | .table [(name, .table [])] => ofName? name
  | .table [(name, .array [])] => ofName? name
  | _ => none

end ResolutionStep

/-- The value under a key read in some way, or the usual one when the key is missing. -/
def Toml.setting {α : Type} (table : Toml) (key : String) (read : Toml → Option α) (usual : α) :
    Option α :=
  match table.field? key with
  | none => some usual
  | some value => read value

def Toml.entries? : Toml → Option (List (String × Toml))
  | .table entries => some entries
  | _ => none

namespace LanguageConfig

/-- What can be set, in the order in which a list gives the values. -/
def keys : List String :=
  ["source_roots", "resolution_order", "module_prefix"]

/-- Settings are a table, or a list of values without their keys. A date is a table in which nothing
is set. -/
def fields? : Toml → Option (List (String × Toml))
  | .table entries => some entries
  | .array values => some (keys.zip values)
  | .date => some []
  | _ => none

def readRoots (value : Toml) : Option (List Path) := do
  return (← value.strings?).map Path.mk

def readOrder (value : Toml) : Option (List ResolutionStep) := do
  (← value.array?).mapM ResolutionStep.ofToml?

def ofToml? (value : Toml) : Option LanguageConfig := do
  let usual : LanguageConfig := {}
  let table := Toml.table (← fields? value)
  return {
    sourceRoots := ← table.setting "source_roots" readRoots usual.sourceRoots
    resolutionOrder := ← table.setting "resolution_order" readOrder usual.resolutionOrder
    modulePath := ← table.setting "module_prefix" (fun value => value.string?.map some)
      usual.modulePath }

end LanguageConfig

namespace Config

def readLanguage (config : Config) (entry : String × Toml) : Option Config := do
  return config.withLanguage (← Language.ofName? entry.1) (← LanguageConfig.ofToml? entry.2)

def ofToml? (table : Toml) : Option Config := do
  let usual : Config := {}
  let config : Config := {
    root := ← table.setting "root" (fun value => value.string?.map Path.mk) usual.root
    exclude := ← table.setting "exclude" Toml.strings? usual.exclude
    parserWorkers := ← table.setting "parser_workers" Toml.count? usual.parserWorkers
    writeThrough := ← table.setting "write_through" Toml.boolean? usual.writeThrough
    editHistory := ← table.setting "edit_history" Toml.count? usual.editHistory
    defaultDepth := ← table.setting "default_dependency_depth" Toml.count? usual.defaultDepth }
  let languages ← table.setting "languages" Toml.entries? []
  languages.foldlM readLanguage config

/-- Settings from a text, once they are valid. -/
def parse (text : String) : Except ConfigError Config := do
  match (Toml.parse? text).bind ofToml? with
  | none => throw .malformed
  | some config =>
    config.validate
    return config

/-- Settings from a file. A root that is not absolute is seen from the directory of the file. -/
def load (disk : Disk) (path : Path) : Except ConfigError Config := do
  match (disk.read path).toOption.bind String.fromUTF8? with
  | none => throw .unreadable
  | some text =>
    let config ← parse text
    match path.parent? with
    | some directory =>
      if config.root.isAbsolute then return config
      else return { config with root := (directory.join config.root.text).tidy }
    | none => return config

end Config

end CodeGraph
