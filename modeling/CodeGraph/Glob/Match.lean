import CodeGraph.Glob.Basic
import CodeGraph.Regex
import CodeGraph.Text.Bytes

/-!
# Matching globs

A glob stands for a regular expression over the bytes of a path. Many globs are decided by a simpler
test, and only the others are limited in the depth of their groups.
-/

namespace CodeGraph

namespace Glob

/-! ### The expression of a glob -/

def slash : ByteTest := .one 47

/-- Any byte; inside names only, any but a slash. -/
def anyByte (insideNames : Bool) : ByteTest :=
  if insideNames then .oneOf true [(47, 47)] else .any

def single (byte : UInt8) : UInt8 × UInt8 :=
  (byte, byte)

/-- The bytes of a class: a range of characters runs from the last byte of the one to the first of
the other, and their other bytes stand for themselves. -/
def byteRanges (range : Char × Char) : List (UInt8 × UInt8) :=
  let low := String.utf8EncodeChar range.1
  let high := String.utf8EncodeChar range.2
  if range.1 = range.2 then low.map single
  else low.dropLast.map single ++ [(low.getLastD 0, high.headD 0)] ++ (high.drop 1).map single

mutual

/-- The expressions that a token stands for. Empty branches take no part, and a group of nothing
else stands for nothing. -/
def tokenRegex (insideNames : Bool) : GlobToken → List Regex
  | .literal char => (String.utf8EncodeChar char).map fun byte => .once (.one byte)
  | .any => [.once (anyByte insideNames)]
  | .many => [.many (anyByte insideNames)]
  | .deepHead => [.either [[.option slash], [.many .any, .once slash]]]
  | .deepTail => [.once slash, .many .any]
  | .deepMiddle => [.either [[.once slash], [.once slash, .many .any, .once slash]]]
  | .oneOf negated ranges => [.once (.oneOf negated (ranges.flatMap byteRanges))]
  | .either branches =>
    match branchRegexes insideNames branches with
    | [] => []
    | rows => [.either rows]

def branchRegexes (insideNames : Bool) : List (List GlobToken) → List (List Regex)
  | [] => []
  | branch :: rest =>
    match tokenRegexes insideNames branch with
    | [] => branchRegexes insideNames rest
    | row => row :: branchRegexes insideNames rest

def tokenRegexes (insideNames : Bool) : List GlobToken → List Regex
  | [] => []
  | token :: rest => tokenRegex insideNames token ++ tokenRegexes insideNames rest

end

/-- The expression of a pattern, in which a single `**` stands for everything. -/
def regex (glob : Glob) (insideNames : Bool) : List Regex :=
  match glob.tokens with
  | [.deepHead] => [.many .any]
  | tokens => tokenRegexes insideNames tokens

def matchesWith (glob : Glob) (insideNames : Bool) (path : String) : Bool :=
  Regex.isMatch (glob.regex insideNames) (Text.bytes path)

/-! ### Patterns of names

Where a pattern asks for a file name, or for the extension of one, a path that leads to the parent
of a directory has none to offer.
-/

def literal? : GlobToken → Option Char
  | .literal char => some char
  | _ => none

def skipDeepHead : List GlobToken → List GlobToken
  | .deepHead :: rest => rest
  | tokens => tokens

def skipMany : List GlobToken → List GlobToken
  | .many :: rest => rest
  | tokens => tokens

/-- A file name at any depth. -/
def asksForName : List GlobToken → Bool
  | .deepHead :: rest =>
    match rest.mapM literal? with
    | some name => !name.isEmpty && !name.contains '/'
    | none => false
  | _ => false

/-- Any file name with some extension. -/
def asksForExtension (tokens : List GlobToken) : Bool :=
  match skipDeepHead tokens with
  | .many :: .literal '.' :: rest =>
    match rest.mapM literal? with
    | some extension => !extension.contains '.' && !extension.contains '/'
    | none => false
  | _ => false

/-- The beginning of a path and nothing else, or the whole of it. -/
def asksForStart (tokens : List GlobToken) : Bool :=
  match tokens.reverse with
  | .deepTail :: rest => (rest.mapM literal?).isSome
  | .many :: rest | rest => (rest.mapM literal?).any (!·.isEmpty)

/-- The end of a path and nothing else; a slash alone is none. Names at any depth begin after a
slash. -/
def asksForEnd : List GlobToken → Bool
  | .deepHead :: .literal _ :: rest => (rest.mapM literal?).isSome
  | tokens =>
    ((skipMany (skipDeepHead tokens)).mapM literal?).any fun chars => chars ≠ [] && chars ≠ ['/']

/-- Whether a token takes one character, and never a slash. -/
def staysInName : GlobToken → Bool
  | .literal char => char ≠ '/'
  | .oneOf negated ranges => ranges.any (fun (low, high) => low ≤ '/' && '/' ≤ high) = negated
  | _ => false

/-- A file name of some form at any depth. -/
def asksForForm : List GlobToken → Bool
  | .deepHead :: rest => !rest.isEmpty && rest.all staysInName
  | _ => false

/-- Literals from a point to the end, within a name. -/
def endsInExtension (tokens : List GlobToken) : Bool :=
  let ending := (tokens.reverse.map literal?).takeWhile fun char =>
    char.any fun char => char ≠ '.' && char ≠ '/'
  match tokens.reverse.drop ending.length with
  | .literal '.' :: _ => true
  | _ => false

/-- How it is decided whether a path matches. -/
inductive Decision where
  | comparison
  /-- By the expression, if the extension is right. -/
  | extension
  /-- By the expression, of which a file name is all that counts. -/
  | form
  /-- By the expression of the whole path. -/
  | expression
  deriving DecidableEq, Repr

def decision (glob : Glob) : Decision :=
  let tokens := glob.tokens
  if asksForName tokens || asksForStart tokens || asksForExtension tokens || asksForEnd tokens then
    .comparison
  else if endsInExtension tokens then .extension
  else if asksForForm tokens then .form
  else .expression

/-- Whether the pattern is answered from the file name alone, or only after a look at it. -/
def needsName (glob : Glob) : Bool :=
  asksForName glob.tokens || asksForExtension glob.tokens || glob.decision = .extension

/-- A path that ends in two points leads to a directory that it does not name. -/
def hasName (path : String) : Bool :=
  (Text.split '/' path).getLast? ≠ some ".."

/-- Whether the pattern matches a whole path; `?` and `*` may take a slash. -/
def isMatch (glob : Glob) (path : String) : Bool :=
  (!glob.needsName || hasName path) && glob.matchesWith false path

/-! ### Depth -/

def isTooDeep (glob : Glob) (insideNames : Bool) : Bool :=
  Regex.isTooDeep (glob.regex insideNames)

/-- A pattern of a set whose groups are too deep: one that is tried by itself, with its expression,
or one of those that are tried together, with its place among them. -/
inductive DepthError where
  | alone (expression : String)
  | together (index : Nat)
  deriving DecidableEq, Repr

def DepthError.message : DepthError → String
  | alone expression => "error parsing glob '" ++ expression ++ "': error parsing pattern 0"
  | together index => "error parsing pattern " ++ toString index

/-- The patterns that are tried by themselves are looked at before the others. A form of names holds
no group, so it cannot be too deep. -/
def checkDepth (globs : List Glob) : Except DepthError Unit :=
  let tooDeep := fun (glob : Glob) => glob.isTooDeep false
  match (globs.filter (·.decision = .extension)).find? tooDeep,
    (globs.filter (·.decision = .expression)).findIdx? tooDeep with
  | some glob, _ => .error (.alone (Regex.wholeText (glob.regex false)))
  | none, some index => .error (.together index)
  | none, none => .ok ()

end Glob

end CodeGraph
