import CodeGraph.Text.Bytes

/-!
# Ranges and points

A range is a half-open run of byte offsets. A point is a row, counted in newlines, and a column,
counted in bytes from the start of the row.
-/

namespace CodeGraph

structure ByteRange where
  start : Nat
  stop : Nat
  deriving DecidableEq, Repr, Inhabited

namespace ByteRange

def length (range : ByteRange) : Nat :=
  range.stop - range.start

def isEmpty (range : ByteRange) : Bool :=
  range.stop ≤ range.start

def contains (range : ByteRange) (offset : Nat) : Bool :=
  range.start ≤ offset && offset < range.stop

/-- Ranges are ordered by where they start, then by where they stop. -/
def before (left right : ByteRange) : Bool :=
  left.start < right.start || (left.start = right.start && left.stop ≤ right.stop)

end ByteRange

structure Point where
  row : Nat
  column : Nat
  deriving DecidableEq, Repr, Inhabited

namespace Point

def newline : UInt8 := 10

/-- The point reached after the given bytes. -/
def after (bytes : List UInt8) : Point where
  row := bytes.count newline
  column := (bytes.reverse.takeWhile (· ≠ newline)).length

end Point

/-- The point of a byte offset; offsets past the end stand for the end. -/
def pointAt (text : String) (offset : Nat) : Point :=
  Point.after ((Text.bytes text).take offset)

structure SourceRange where
  bytes : ByteRange
  first : Point
  last : Point
  deriving DecidableEq, Repr, Inhabited

def SourceRange.ofBytes (text : String) (range : ByteRange) : SourceRange where
  bytes := range
  first := pointAt text range.start
  last := pointAt text range.stop

end CodeGraph
