import CodeGraph.Glob.Basic

/-!
# Reading globs

A pattern is read from left to right, with the groups that are open on a stack.
-/

namespace CodeGraph

namespace Glob

/-- An open group: the branches read so far and the one being read, each from its end. -/
structure Frame where
  finished : List (List GlobToken) := []
  current : List GlobToken := []
  deriving Repr, Inhabited

/-- The open groups, the innermost first, above the pattern itself. -/
structure Frames where
  inner : List Frame := []
  outer : Frame := {}
  deriving Repr

namespace Frames

def top (frames : Frames) : Frame :=
  frames.inner.headD frames.outer

def setTop (frames : Frames) (frame : Frame) : Frames :=
  match frames.inner with
  | [] => { frames with outer := frame }
  | _ :: rest => { frames with inner := frame :: rest }

def push (frames : Frames) (tokens : List GlobToken) : Frames :=
  let top := frames.top
  frames.setTop { top with current := tokens.reverse ++ top.current }

def isInGroup (frames : Frames) : Bool :=
  !frames.inner.isEmpty

def openGroup (frames : Frames) : Frames :=
  { frames with inner := {} :: frames.inner }

def branchesOf (frame : Frame) : List (List GlobToken) :=
  (frame.current :: frame.finished).reverse.map List.reverse

def closeGroup (frames : Frames) : Except GlobError Frames :=
  match frames.inner with
  | [] => .error .unopenedGroup
  | frame :: rest => .ok (({ frames with inner := rest }).push [.either (branchesOf frame)])

/-- A comma begins a new branch inside a group and is itself outside. -/
def comma (frames : Frames) : Frames :=
  if frames.isInGroup then
    let top := frames.top
    frames.setTop ⟨top.current :: top.finished, []⟩
  else frames.push [.literal ',']

/-- Joins `**` with the slash before it. -/
def deepen (frames : Frames) (token : GlobToken) : Frames :=
  let top := frames.top
  match top.current with
  | .deepHead :: _ | .deepTail :: _ => frames
  | _ :: rest => frames.setTop { top with current := token :: rest }
  | [] => frames

end Frames

def isSlash (char : Char) : Bool :=
  char = '/'

/-- What `**` means after `before` and in front of `rest`; the answer is also what is left to read,
and whether a slash was taken. -/
def deepStar (frames : Frames) (before : Option Char) (rest : List Char) :
    Frames × Bool × List Char :=
  let plain := (frames.push [.many, .many], false, rest)
  if frames.top.current.isEmpty then
    match rest with
    | [] => (frames.push [.deepHead], false, [])
    | next :: after =>
      if isSlash next then (frames.push [.deepHead], true, after) else plain
  else if !before.any isSlash && !(frames.isInGroup && (before = some ',' || before = some '\x7b'))
  then plain
  else match rest with
    | [] => (frames.deepen .deepTail, false, [])
    | next :: after =>
      if frames.isInGroup && (next = ',' || next = '\x7d') then
        (frames.deepen .deepTail, false, rest)
      else if isSlash next then (frames.deepen .deepMiddle, true, after)
      else plain

/-- Closes a range that was begun with a dash. -/
def closeRange (ranges : List (Char × Char)) (high : Char) :
    Except GlobError (List (Char × Char)) :=
  match ranges with
  | [] => .ok [(high, high)]
  | (low, _) :: rest =>
    if high < low then .error (.invalidRange low high) else .ok ((low, high) :: rest)

/-- The ranges of a class, last first, and what follows it. A bracket or a dash that comes first is
itself, and so is a dash that comes last. -/
def classRanges : Bool → Bool → List (Char × Char) → List Char →
    Except GlobError (List (Char × Char) × List Char)
  | _, _, _, [] => .error .unclosedClass
  | isFirst, inRange, ranges, char :: rest =>
    if char = ']' && !isFirst then
      .ok (if inRange then ('-', '-') :: ranges else ranges, rest)
    else if char = '-' && !isFirst && !inRange then classRanges false true ranges rest
    else if inRange && char ≠ ']' then do
      classRanges false false (← closeRange ranges char) rest
    else classRanges false false ((char, char) :: ranges) rest

def classToken (chars : List Char) : Except GlobError (GlobToken × List Char) :=
  let (negated, chars) := match chars with
    | '!' :: rest => (true, rest)
    | '^' :: rest => (true, rest)
    | _ => (false, chars)
  (classRanges true false [] chars).map fun (ranges, rest) =>
    (.oneOf negated ranges.reverse, rest)

/-- What becomes of an opening bracket: it has to be closed, it is itself where it is not closed, or
it is always itself. -/
inductive Brackets where
  | strict
  | lenient
  | plain
  deriving DecidableEq, Repr

/-- The class that a bracket opens and what follows it; nothing when the bracket is itself. -/
def Brackets.classToken? (brackets : Brackets) (chars : List Char) :
    Except GlobError (Option (GlobToken × List Char)) :=
  match brackets with
  | .strict => (classToken chars).map some
  | .lenient =>
    match classToken chars with
    | .error .unclosedClass => .ok none
    | answer => answer.map some
  | .plain => .ok none

/-- Reads a pattern; every step takes at least one character. After a bracket that was not closed no
other can be. -/
def parseFrom : Nat → Brackets → Option Char → List Char → Frames → Except GlobError Frames
  | 0, _, _, _, frames => .ok frames
  | _, _, _, [], frames => .ok frames
  | steps + 1, brackets, before, char :: rest, frames =>
    match char with
    | '?' => parseFrom steps brackets (some char) rest (frames.push [.any])
    | '*' =>
      match rest with
      | '*' :: after =>
        let (frames, tookSlash, after) := deepStar frames before after
        parseFrom steps brackets (some (if tookSlash then '/' else '*')) after frames
      | _ => parseFrom steps brackets (some char) rest (frames.push [.many])
    | '[' => do
      match ← brackets.classToken? rest with
      | some (token, after) => parseFrom steps brackets (some ']') after (frames.push [token])
      | none => parseFrom steps .plain (some char) rest (frames.push [.literal char])
    | '\x7b' => parseFrom steps brackets (some char) rest frames.openGroup
    | '\x7d' => do parseFrom steps brackets (some char) rest (← frames.closeGroup)
    | ',' => parseFrom steps brackets (some char) rest frames.comma
    | '\\' =>
      match rest with
      | [] => .error .danglingEscape
      | escaped :: after =>
        parseFrom steps brackets (some escaped) after (frames.push [.literal escaped])
    | _ => parseFrom steps brackets (some char) rest (frames.push [.literal char])

def parseWith (brackets : Brackets) (pattern : String) : Except GlobError Glob := do
  let chars := pattern.toList
  let frames ← parseFrom chars.length brackets none chars {}
  if frames.isInGroup then .error .unclosedGroup else .ok ⟨frames.outer.current.reverse⟩

/-- A pattern in which every bracket is closed. -/
def parse (pattern : String) : Except GlobError Glob :=
  parseWith .strict pattern

/-- A pattern in which a bracket that is not closed stands for itself. -/
def parseLenient (pattern : String) : Except GlobError Glob :=
  parseWith .lenient pattern

end Glob

end CodeGraph
