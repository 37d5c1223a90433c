import CodeGraph.Text.Range

/-!
# Text edits

One replacement in a text, and the description of it that an incremental parser needs: where the
replaced bytes began and ended, and where the new ones end, in bytes and in points.
-/

namespace CodeGraph

structure TextEdit where
  start : Nat
  oldStop : Nat
  newStop : Nat
  deriving DecidableEq, Repr, Inhabited

structure EditPoints where
  start : Point
  oldStop : Point
  newStop : Point
  deriving DecidableEq, Repr, Inhabited

namespace TextEdit

def replace (range : ByteRange) (newLength : Nat) : TextEdit where
  start := range.start
  oldStop := range.stop
  newStop := range.start + newLength

def points (edit : TextEdit) (oldText newText : String) : EditPoints where
  start := pointAt oldText edit.start
  oldStop := pointAt oldText edit.oldStop
  newStop := pointAt newText edit.newStop

end TextEdit

end CodeGraph
