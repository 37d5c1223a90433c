import CodeGraph.Disk.Basic
import CodeGraph.Glob.Match
import CodeGraph.Glob.Parse
import CodeGraph.Text.Quoted

/-!
# Ignore files

Lines of an ignore file are patterns for what lies below its directory. The last pattern that
matches decides; one that begins with `!` keeps what it matches. `.ignore` files always count, and
`.gitignore` files inside a repository only, up to its top.
-/

namespace CodeGraph

structure IgnoreRule where
  glob : Glob
  keeps : Bool
  directoriesOnly : Bool
  deriving Repr

inductive Verdict where
  | silent
  | ignored
  | kept
  deriving DecidableEq, Repr

def Verdict.orElse (first : Verdict) (second : Verdict) : Verdict :=
  if first = .silent then second else first

namespace IgnoreRule

/-- A pattern without a slash may match at any depth, and one that ends in `/**` matches what is
inside a directory but not the directory. -/
def fullPattern (anchored : Bool) (pattern : String) : String :=
  let loose := !anchored && !pattern.toList.contains '/' && pattern ≠ "**"
  let pattern := if loose then "**/" ++ pattern else pattern
  if Text.endsWith "/**" pattern then pattern ++ "/*" else pattern

/-- A slash at the end asks for a directory. -/
def dropSlash (line : String) : String × Bool :=
  match Text.dropTail? "/" line with
  | none => (line, false)
  | some rest => ((Text.dropTail? "\\" rest).getD rest, true)

def make? (keeps anchored : Bool) (line : String) : Option IgnoreRule := do
  let (pattern, directoriesOnly) := dropSlash line
  let glob ← (Glob.parseLenient (fullPattern anchored pattern)).toOption
  return { glob, keeps, directoriesOnly }

/-- The rule of a line, if it has one. -/
def ofLine? (line : String) : Option IgnoreRule :=
  if Text.startsWith "#" line then none
  else
    let line := if Text.endsWith "\\ " line then line else Text.trimEnd line
    if line = "" then none
    else if Text.startsWith "\\!" line || Text.startsWith "\\#" line then
      make? false false (String.ofList (line.toList.drop 1))
    else
      let (keeps, line) := match Text.dropHead? "!" line with
        | some rest => (true, rest)
        | none => (false, line)
      match Text.dropHead? "/" line with
      | some rest => make? keeps true rest
      | none => make? keeps false line

def applies (rule : IgnoreRule) (path : String) (isDirectory : Bool) : Bool :=
  (!rule.directoriesOnly || isDirectory) && rule.glob.matchesWith true path

/-- The last rule that applies decides. -/
def judge (rules : List IgnoreRule) (path : String) (isDirectory : Bool) : Verdict :=
  match rules.reverse.find? fun rule => rule.applies path isDirectory with
  | none => .silent
  | some rule => if rule.keeps then .kept else .ignored

end IgnoreRule

namespace Disk

/-- A line without the line feed that ends it, and without a carriage return before that. -/
def unended (line : List UInt8) : List UInt8 :=
  match line.reverse with
  | 10 :: 13 :: rest | 10 :: rest => rest.reverse
  | _ => line

/-- The lines of a file as far as they are text, without byte order marks at the beginning. -/
def linesOf (content : ByteArray) : List String :=
  let lines := (content.toList.splitBy fun left _ => left ≠ 10).map fun line =>
    String.fromUTF8? ⟨(unended line).toArray⟩
  match (lines.takeWhile Option.isSome).filterMap id with
  | first :: rest => String.ofList (first.toList.dropWhile (· = '\ufeff')) :: rest
  | [] => []

/-- The rules of a file; a file with a pattern that is too deep has none. -/
def rulesOf (content : ByteArray) : List IgnoreRule :=
  let rules := (linesOf content).filterMap IgnoreRule.ofLine?
  if rules.any fun rule => rule.glob.isTooDeep true then [] else rules

end Disk

/-- What a scan has to know of a disk: the rules of its ignore files, each with the names that lead
to the file, and the tops of its repositories. -/
structure Ignores where
  rules : List (List String × List IgnoreRule)
  repositories : List (List String)
  deriving Repr

namespace Ignores

/-- The file that counts everywhere. -/
def plainFile : List String := [".ignore"]

/-- The files that count inside a repository, the stronger first. -/
def repositoryFiles : List (List String) := [[".gitignore"], [".git", "info", "exclude"]]

def ofDisk (disk : Disk) : Ignores where
  rules := disk.entries.entries.filterMap fun (names, entry) =>
    match entry with
    | .file content =>
      if (plainFile :: repositoryFiles).any (·.isSuffixOf names) then
        some (names, Disk.rulesOf content)
      else none
    | .directory => none
  repositories := disk.entries.keys.filterMap fun names =>
    if names.getLast?.any [".git", ".jj"].contains then some names.dropLast else none

/-- The rules in a file of a directory; without such a file there are none. -/
def rulesIn (ignores : Ignores) (directory file : List String) : List IgnoreRule :=
  (ignores.rules.lookup (directory ++ file)).getD []

def isRepository (ignores : Ignores) (directory : List String) : Bool :=
  ignores.repositories.contains directory

/-- The directories around an entry, the nearest first. -/
def directoriesAround (names : List String) : List (List String) :=
  (List.range names.length).reverse.map names.take

/-- The directories up to and with the first repository. -/
def upToRepository (ignores : Ignores) : List (List String) → List (List String)
  | [] => []
  | directory :: rest =>
    if ignores.isRepository directory then [directory]
    else directory :: upToRepository ignores rest

/-- What the files of one name in some directories say of an entry; the nearest that says anything
decides. -/
def judgeBy (ignores : Ignores) (file : List String) (directories : List (List String))
    (names : List String) (isDirectory : Bool) : Verdict :=
  directories.foldl (fun verdict directory => verdict.orElse
    (IgnoreRule.judge (ignores.rulesIn directory file)
      (Text.join "/" (names.drop directory.length)) isDirectory)) .silent

def judge (ignores : Ignores) (names : List String) (isDirectory : Bool) : Verdict :=
  let around := directoriesAround names
  let inside := if around.any ignores.isRepository then ignores.upToRepository around else []
  repositoryFiles.foldl (fun verdict file =>
      verdict.orElse (ignores.judgeBy file inside names isDirectory))
    (ignores.judgeBy plainFile around names isDirectory)

/-- Whether a scan passes over an entry: it is ignored, or hidden and not asked for. -/
def isSkipped (ignores : Ignores) (names : List String) (isDirectory : Bool) : Bool :=
  match ignores.judge names isDirectory with
  | .ignored => true
  | .kept => false
  | .silent => names.getLast?.any (Text.startsWith ".")

end Ignores

end CodeGraph
