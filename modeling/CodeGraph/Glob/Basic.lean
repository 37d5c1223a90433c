/-!
# Globs

Patterns for whole paths: `?` stands for any byte and `*` for any number of them, `**` between
slashes for any number of directories, `[a-z]` for one byte of a class, `[!a-z]` for one outside it,
`{a,b}` for either of several patterns, and a backslash takes the next character as it is.
-/

namespace CodeGraph

inductive GlobError where
  | unclosedClass
  | invalidRange (low high : Char)
  | unopenedGroup
  | unclosedGroup
  | danglingEscape
  deriving DecidableEq, Repr

def GlobError.message : GlobError → String
  | unclosedClass => "unclosed character class; missing ']'"
  | invalidRange low high =>
    "invalid range; '" ++ low.toString ++ "' > '" ++ high.toString ++ "'"
  | unopenedGroup =>
    "unopened alternate group; missing '\x7b' (maybe escape '\x7d' with '[\x7d]'?)"
  | unclosedGroup =>
    "unclosed alternate group; missing '\x7d' (maybe escape '\x7b' with '[\x7b]'?)"
  | danglingEscape => "dangling '\\'"

inductive GlobToken where
  | literal (char : Char)
  | any
  | many
  /-- `**` and a slash at the start. -/
  | deepHead
  /-- A slash and `**` at the end. -/
  | deepTail
  /-- `**` between two slashes. -/
  | deepMiddle
  | oneOf (negated : Bool) (ranges : List (Char × Char))
  | either (branches : List (List GlobToken))
  deriving Repr, Inhabited

structure Glob where
  tokens : List GlobToken
  deriving Repr

end CodeGraph
