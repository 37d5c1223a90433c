import CodeGraph.Config.Basic
import CodeGraph.Facts.Basic

/-!
# Where an import may point

From the text of an import and the place of the importing file to the files, or the directories, in
which the imported module may live. Plans are made from paths alone; which of the candidates exist
is decided elsewhere. Every candidate is a normalized path.
-/

namespace CodeGraph

/-- A place where a module may live. A package is every file of one language in a directory. -/
inductive Candidate where
  | file (path : Path)
  | package (directory : Path)
  deriving DecidableEq, Repr

namespace Candidate

def path : Candidate → Path
  | file path => path
  | package directory => directory

/-- Whether a file at `path` would do. -/
def accepts (candidate : Candidate) (path : Path) : Bool :=
  match candidate with
  | file wanted => wanted.same path
  | package directory => path.parent?.any directory.same

end Candidate

/-- What an import stands for when no candidate exists. -/
inductive Fallback where
  | unresolved (reason : String)
  | external (name : String)
  deriving DecidableEq, Repr

structure ModulePlan where
  /-- Places of the imported module, best first. -/
  candidates : List Candidate
  /-- Places of the imported member, should it be a module itself. -/
  memberCandidates : List Candidate := []
  fallback : Fallback
  deriving DecidableEq, Repr

namespace ModulePlan

def unresolved (reason : String) : ModulePlan :=
  { candidates := [], fallback := .unresolved reason }

def all (plan : ModulePlan) : List Candidate :=
  plan.candidates ++ plan.memberCandidates

/-! ### Paths of modules -/

def parentDir (path : Path) : Path :=
  path.parent?.getD ⟨""⟩

def joinAll (base : Path) (segments : List String) : Path :=
  segments.foldl Path.join base

def withSuffix (path : Path) (suffix : String) : Path :=
  ⟨path.text ++ suffix⟩

def files (paths : List Path) : List Candidate :=
  (paths.filterMap Path.normalize?).map Candidate.file

/-- The directories searched for absolute module names, in the configured order. -/
def searchDirs (importer : Path) (config : LanguageConfig) : List Path :=
  let directories := config.resolutionOrder.flatMap fun
    | .packageRelative => [parentDir importer]
    | .sourceRoots => config.sourceRoots
  (directories.filterMap Path.normalize?).eraseDups

/-! ### Python -/

def pythonFiles (directory : Path) : List Path :=
  if directory.text = "" then [⟨"__init__.py"⟩]
  else [withSuffix directory ".py", directory.join "__init__.py"]

/-- The directory `levels` above, unless that is above the project. -/
def climb? : Nat → Path → Option Path
  | 0, base => some base
  | levels + 1, base =>
    if base.text = "" then none
    else match base.parent? with
      | some parent => climb? levels parent
      | none => none

def leadingDots (specifier : String) : Nat :=
  (specifier.toList.takeWhile (· = '.')).length

def afterDots (specifier : String) : List String :=
  (Text.split '.' (String.ofList (specifier.toList.dropWhile (· = '.')))).filter (· ≠ "")

def pythonBases? (importer : Path) (specifier : String) (config : LanguageConfig) :
    Option (List Path) :=
  match leadingDots specifier with
  | 0 => some (searchDirs importer config)
  | levels + 1 => (climb? levels (parentDir importer)).map fun base => [base]

def python (importer : Path) (fact : ImportFact) (config : LanguageConfig) : ModulePlan :=
  let specifier := fact.specifier
  match pythonBases? importer specifier config with
  | none => unresolved ("relative import " ++ specifier ++ " goes above the project root")
  | some bases =>
    let names := afterDots specifier
    let directories := bases.map fun base => joinAll base names
    { candidates := directories.flatMap fun directory => files (pythonFiles directory)
      memberCandidates := match fact.member with
        | some member => directories.flatMap fun directory =>
          files (pythonFiles (directory.join member))
        | none => []
      fallback :=
        if 0 < leadingDots specifier then .unresolved ("module " ++ specifier ++ " not found")
        else .external (names.head?.getD specifier) }

/-! ### JavaScript and TypeScript -/

def javascriptExtensions : List String := ["js", "jsx", "mjs", "cjs", "ts", "tsx"]

def typescriptExtensions : List String := ["ts", "tsx", "d.ts", "js", "jsx", "mjs", "cjs"]

def isRelative (specifier : String) : Bool :=
  specifier = "." || specifier = ".." || Text.startsWith "./" specifier ||
    Text.startsWith "../" specifier || Text.startsWith "/" specifier

def hasKnownExtension (path : Path) : Bool :=
  path.extension?.any javascriptExtensions.contains

/-- `./x` may be `x` itself, `x` with an extension, or an index file in `x`. A file may also be
imported under the `.js` that it is compiled to. -/
def withExtensions (base : Path) (extensions : List String) : List Path :=
  let sources := if base.extension? = some "js" then
      [base.withExtension "ts", base.withExtension "tsx"]
    else []
  let exact := if hasKnownExtension base then base :: sources else []
  exact ++ extensions.map (fun suffix => withSuffix base ("." ++ suffix)) ++
    extensions.map fun suffix => base.join ("index." ++ suffix)

/-- The package that a bare specifier belongs to; a scope such as `@x` is part of its name. -/
def packageName (specifier : String) : String :=
  match Text.split '/' specifier with
  | scope :: name :: _ => if Text.startsWith "@" scope then scope ++ "/" ++ name else scope
  | [name] => name
  | [] => specifier

def ecma (language : Language) (importer : Path) (fact : ImportFact) (config : LanguageConfig) :
    ModulePlan :=
  let specifier := fact.specifier
  let extensions := if language = .typescript then typescriptExtensions else javascriptExtensions
  if isRelative specifier then
    let base : Path := match Text.dropHead? "/" specifier with
      | some absolute => ⟨absolute⟩
      | none => (parentDir importer).join specifier
    match base.normalize? with
    | none => unresolved ("cannot find module '" ++ specifier ++ "': path leaves the project")
    | some base =>
      { candidates := files (withExtensions base extensions)
        fallback := .unresolved ("cannot find module '" ++ specifier ++ "'") }
  else
    let roots := if config.resolutionOrder.contains .sourceRoots then config.sourceRoots else []
    { candidates := roots.flatMap fun root =>
        files (withExtensions (root.join specifier) extensions)
      fallback := .external (packageName specifier) }

/-! ### Go -/

/-- The part of a module path below the project's own. -/
def localPart? (config : LanguageConfig) (specifier : String) : Option String :=
  config.modulePath.bind fun own =>
    if specifier = own then some "" else (Text.dropHead? own specifier).bind (Text.dropHead? "/")

def go (fact : ImportFact) (config : LanguageConfig) : ModulePlan :=
  let specifier := fact.specifier
  let packages (relative : String) : List Candidate :=
    let segments := (Text.split '/' relative).filter (· ≠ "")
    (config.sourceRoots.filterMap fun root => (joinAll root segments).normalize?).map .package
  match localPart? config specifier with
  | some relative =>
    { candidates := packages relative
      fallback := .unresolved ("package " ++ specifier ++ " not found") }
  | none => { candidates := packages specifier, fallback := .external specifier }

/-! ### Rust -/

def isModuleRoot (file : Path) : Bool :=
  file.fileName?.any ["mod.rs", "lib.rs", "main.rs"].contains

/-- The directory of the submodules of the module that the file defines. -/
def submoduleDir (file : Path) : Path :=
  let parent := parentDir file
  if isModuleRoot file then parent
  else match file.stem? with
    | some stem => parent.join stem
    | none => parent

/-- The directories above a file, nearest first. -/
def ancestors (file : Path) : List Path :=
  let components := file.components
  (List.range components.length).reverse.map fun count => Path.ofComponents (components.take count)

/-- The nearest `src` above the file, else its own directory. -/
def crateDir (file : Path) : Path :=
  ((ancestors file).find? fun directory => directory.fileName? = some "src").getD (parentDir file)

/-- The files that may define the module whose submodules lie in the directory. -/
def rustFiles (directory : Path) : List Path :=
  [withSuffix directory ".rs", directory.join "mod.rs", directory.join "lib.rs",
    directory.join "main.rs"]

def splitColons : List Char → List (List Char)
  | [] => [[]]
  | ':' :: ':' :: rest => [] :: splitColons rest
  | char :: rest =>
    match splitColons rest with
    | [] => [[char]]
    | part :: parts => (char :: part) :: parts

def rustSegments (specifier : String) : List String :=
  ((splitColons specifier.toList).map String.ofList).filter (· ≠ "")

/-- Where a path starts: the directory of the submodules there, and the files of the module. -/
def rustStart? (importer : Path) : String → Option (Path × List Path)
  | "crate" =>
    let directory := crateDir importer
    some (directory, [directory.join "lib.rs", directory.join "main.rs"])
  | "self" => some (submoduleDir importer, [importer])
  | "super" =>
    let directory := parentDir (submoduleDir importer)
    some (directory, rustFiles directory)
  | _ => none

def rustStep (position : Path × List Path) (segment : String) : Path × List Path :=
  let directory := if segment = "super" then parentDir position.1 else position.1.join segment
  (directory, rustFiles directory)

def rust (importer : Path) (fact : ImportFact) : ModulePlan :=
  match rustSegments fact.specifier with
  | [] => unresolved "empty path"
  | first :: rest =>
    match rustStart? importer first with
    | none => { candidates := [], fallback := .external first }
    | some start =>
      let (directory, moduleFiles) := rest.foldl rustStep start
      { candidates := files moduleFiles
        memberCandidates := match fact.member with
          | some member => files (rustFiles (directory.join member))
          | none => []
        fallback := .unresolved ("module " ++ fact.specifier ++ " not found") }

/-! ### Java -/

/-- An import names a package, or a class file when it takes a static member out of one. -/
def java (fact : ImportFact) (config : LanguageConfig) : ModulePlan :=
  let segments := Text.split '.' fact.specifier
  let directories := config.sourceRoots.map fun root => joinAll root segments
  { candidates := directories.flatMap fun directory =>
      directory.normalize?.toList.map .package ++ files [withSuffix directory ".java"]
    memberCandidates := match fact.member with
      | some member => directories.flatMap fun directory =>
        directory.normalize?.toList.flatMap fun directory =>
          files [directory.join (member ++ ".java")]
      | none => []
    fallback := .external fact.specifier }

/-- Where an import found in `importer` may point. -/
def make (language : Language) (importer : Path) (fact : ImportFact) (config : LanguageConfig) :
    ModulePlan :=
  match language with
  | .python => python importer fact config
  | .javascript | .typescript => ecma language importer fact config
  | .go => go fact config
  | .rust => rust importer fact
  | .java => java fact config
  | .other => unresolved "unsupported language"

end ModulePlan

end CodeGraph
