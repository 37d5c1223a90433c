import CodeGraph.Config.Validate
import CodeGraph.Document.Basic

/-!
# Documents of settings
-/

namespace CodeGraph

open Document

def ResolutionStep.all : List ResolutionStep := [packageRelative, sourceRoots]

def ResolutionStep.name : ResolutionStep → String
  | packageRelative => "package_relative"
  | sourceRoots => "source_roots"

def LanguageConfig.document (config : LanguageConfig) : Document :=
  record [("source_roots", each Path.document config.sourceRoots),
    ("resolution_order", each (fun step => string step.name) config.resolutionOrder),
    ("module_prefix", optionalString config.modulePath)]

def Config.document (config : Config) : Document :=
  record [("root", config.root.document),
    ("languages", record (config.languages.map fun (language, settings) =>
      (language.name, settings.document))),
    ("exclude", strings config.exclude), ("parser_workers", nat config.parserWorkers),
    ("write_through", truth config.writeThrough), ("edit_history", nat config.editHistory),
    ("default_dependency_depth", nat config.defaultDepth)]

def ConfigError.kind : ConfigError → String
  | unreadable => "Io"
  | malformed => "Parse"
  | badPattern .. | deepPattern .. => "Glob"
  | emptyOrder _ | absoluteRoot _ => "Invalid"

def ConfigError.document (error : ConfigError) : Document :=
  failure error.kind error.message?

end CodeGraph
