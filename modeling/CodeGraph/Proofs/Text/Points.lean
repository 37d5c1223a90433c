import CodeGraph.Proofs.Text
import CodeGraph.Text.Edit
import Mathlib.Data.List.TakeWhile
import Mathlib.Data.Prod.Lex
import Mathlib.Order.Interval.Set.Defs
import Mathlib.Order.Monotone.Defs

/-!
# Points before and behind an edit

Bytes move a point on: over a newline to a column of their own, in one row by as many columns as there
are bytes. The bytes behind an edit are the same in both texts, so they move the end of what was
replaced and the end of what was put there alike. Hence the points of an edit are enough to move every
point behind it, and nothing has to be counted again.
-/

namespace CodeGraph

namespace Point

/-- Where a point stands in a text: by its row, and in a row by its column. -/
def place (point : Point) : Nat ×ₗ Nat :=
  toLex (point.row, point.column)

/-- The point that bytes lead to from another. -/
def advance (point : Point) (bytes : List UInt8) : Point where
  row := point.row + bytes.count newline
  column := if newline ∈ bytes then (after bytes).column else point.column + bytes.length

theorem place_lt_iff {left right : Point} : left.place < right.place ↔
    left.row < right.row ∨ (left.row = right.row ∧ left.column < right.column) :=
  Prod.Lex.toLex_lt_toLex

/-- Only the bytes behind the last newline count for the column. -/
theorem column_after_append (front back : List UInt8) : (after (front ++ back)).column =
    if newline ∈ back then (after back).column else (after front).column + back.length := by
  unfold after
  rw [List.reverse_append, List.takeWhile_append]
  by_cases hnewline : newline ∈ back
  · have hstops : (back.reverse.takeWhile (· ≠ newline)).length ≠ back.reverse.length := by
      intro hlength
      have hall := (List.takeWhile_sublist (l := back.reverse) (· ≠ newline)).eq_of_length hlength
      rw [List.takeWhile_eq_self_iff] at hall
      simpa using hall newline (List.mem_reverse.2 hnewline)
    rw [if_neg hstops, if_pos hnewline]
  · have hall : back.reverse.takeWhile (· ≠ newline) = back.reverse := by
      rw [List.takeWhile_eq_self_iff]
      intro byte hbyte
      have hne : byte ≠ newline := fun heq => hnewline (heq ▸ List.mem_reverse.1 hbyte)
      simpa using hne
    rw [if_pos (by rw [hall]), if_neg hnewline, List.length_append, List.length_reverse,
      Nat.add_comm]

theorem after_append (front back : List UInt8) :
    after (front ++ back) = (after front).advance back := by
  have hcolumn := column_after_append front back
  unfold advance
  rw [← hcolumn]
  simp only [after, List.count_append]

/-- Any bytes lead on. -/
theorem place_lt_advance (point : Point) {bytes : List UInt8} (hbytes : bytes ≠ []) :
    point.place < (point.advance bytes).place := by
  rw [place_lt_iff]
  unfold advance
  by_cases hnewline : newline ∈ bytes
  · have hcount : 0 < bytes.count newline := List.count_pos_iff.2 hnewline
    left
    dsimp only
    omega
  · have hcount : bytes.count newline = 0 := List.count_eq_zero.2 hnewline
    have hlength : 0 < bytes.length := List.length_pos_iff.2 hbytes
    right
    simp only [hcount, hnewline, if_false]
    omega

end Point

/-- Where the points behind an edit go: rows as far as the end of the edit, and columns only in the row
in which it ended. -/
def EditPoints.shift (points : EditPoints) (point : Point) : Point where
  row := point.row - points.oldStop.row + points.newStop.row
  column := if point.row = points.oldStop.row then
      point.column - points.oldStop.column + points.newStop.column
    else point.column

/-- The same bytes lead both ends of an edit to points that correspond. -/
theorem EditPoints.shift_advance (points : EditPoints) (bytes : List UInt8) :
    points.shift (points.oldStop.advance bytes) = points.newStop.advance bytes := by
  unfold shift Point.advance
  by_cases hnewline : Point.newline ∈ bytes
  · have hcount : 0 < bytes.count Point.newline := List.count_pos_iff.2 hnewline
    have hrow : points.oldStop.row + bytes.count Point.newline ≠ points.oldStop.row := by omega
    simp only [hnewline, if_true, hrow, if_false, Point.mk.injEq, and_true]
    omega
  · have hcount : bytes.count Point.newline = 0 := List.count_eq_zero.2 hnewline
    simp only [hcount, hnewline, if_false, Nat.add_zero, if_true, Point.mk.injEq]
    omega

/-- The bytes between two offsets lead from the point of one to the point of the other. -/
theorem pointAt_add (text : String) (offset more : Nat) : pointAt text (offset + more) =
    (pointAt text offset).advance (((Text.bytes text).drop offset).take more) := by
  unfold pointAt
  rw [List.take_add, Point.after_append]

theorem strictMonoOn_place_pointAt (text : String) :
    StrictMonoOn (fun offset => (pointAt text offset).place) (Set.Iic (Text.size text)) := by
  intro first hfirst second hsecond hlt
  have hbetween : ((Text.bytes text).drop first).take (second - first) ≠ [] := by
    have hsize : second ≤ (Text.bytes text).length := by
      rw [Text.length_bytes]
      exact hsecond
    apply List.ne_nil_of_length_pos
    rw [List.length_take, List.length_drop]
    omega
  have hadd := pointAt_add text first (second - first)
  rw [Nat.add_sub_cancel' hlt.le] at hadd
  dsimp only
  rw [hadd]
  exact Point.place_lt_advance _ hbetween

namespace TextEdit

/-- **The points of an edit tell where every point of the text goes.** When the bytes of a range were
replaced, as a splice does, the edit begins at one point in both texts, every point from the end of the
range on is not before the old end of the edit and goes where the points of the edit shift it, and the
points of a text come in the order of their offsets. -/
theorem points_shift {text inserted now : String} {range : ByteRange}
    (hrange : range.start ≤ range.stop) (hstop : range.stop ≤ Text.size text)
    (hspliced : Text.bytes now = (Text.bytes text).take range.start ++ Text.bytes inserted ++
      (Text.bytes text).drop range.stop) :
    let points := (replace range (Text.size inserted)).points text now
    pointAt now range.start = points.start ∧
      (∀ offset, range.stop ≤ offset → offset ≤ Text.size text →
        points.oldStop.place ≤ (pointAt text offset).place ∧
        pointAt now (offset - range.stop + range.start + Text.size inserted) =
          points.shift (pointAt text offset)) ∧
      StrictMonoOn (fun offset => (pointAt text offset).place) (Set.Iic (Text.size text)) := by
  intro points
  have hmono := strictMonoOn_place_pointAt text
  have hfront : ((Text.bytes text).take range.start).length = range.start := by
    rw [List.length_take, Text.length_bytes]
    omega
  refine ⟨?_, fun offset hoffset hsize => ⟨?_, ?_⟩, hmono⟩
  · -- up to its start the edit changes no byte
    change Point.after ((Text.bytes now).take range.start) =
      Point.after ((Text.bytes text).take range.start)
    rw [hspliced, List.append_assoc, List.take_left' hfront]
  · exact hmono.monotoneOn hstop hsize hoffset
  · have hbehind : (Text.bytes now).drop (range.start + Text.size inserted) =
        (Text.bytes text).drop range.stop := by
      rw [hspliced, List.drop_left']
      rw [List.length_append, hfront, Text.length_bytes]
    have hsplit : offset - range.stop + range.start + Text.size inserted =
        range.start + Text.size inserted + (offset - range.stop) := by omega
    set between := ((Text.bytes text).drop range.stop).take (offset - range.stop) with hbetween
    calc pointAt now (offset - range.stop + range.start + Text.size inserted)
        = points.newStop.advance between := by rw [hsplit, pointAt_add, hbehind]; rfl
      _ = points.shift (points.oldStop.advance between) := (points.shift_advance between).symm
      _ = points.shift (pointAt text offset) := by
          have hadd := pointAt_add text range.stop (offset - range.stop)
          rw [Nat.add_sub_cancel' hoffset] at hadd
          rw [hadd]
          rfl

/-- Two rows are joined and broken apart elsewhere, next to characters of two bytes. What follows in the
last row moves to other columns, and what follows below moves by rows only. -/
theorem points_shift_joined :
    let text := "a = 1\nb = 'é'; c\nd\n"
    let now := "a = 'ü'\n\n; c\nd\n"
    Text.splice? text 4 14 "'ü'\n\n" = some now ∧
      pointAt text 14 = ⟨1, 8⟩ ∧ pointAt now 10 = ⟨2, 0⟩ ∧
      pointAt text 19 = ⟨2, 1⟩ ∧ pointAt now 15 = ⟨3, 1⟩ := by
  intro text now
  have hsplice : Text.splice? text 4 14 "'ü'\n\n" = some now := by decide +kernel
  have hrange : (ByteRange.mk 4 14).start ≤ (ByteRange.mk 4 14).stop := by decide
  obtain ⟨-, hbehind, -⟩ := points_shift hrange (by decide +kernel) (Text.bytes_of_splice? hsplice)
  obtain ⟨-, hrow⟩ := hbehind 14 (by decide) (by decide +kernel)
  obtain ⟨-, hbelow⟩ := hbehind 19 (by decide) (by decide +kernel)
  have hsize : Text.size "'ü'\n\n" = 6 := by decide +kernel
  rw [hsize] at hrow hbelow
  refine ⟨hsplice, by decide +kernel, hrow.trans ?_, by decide +kernel, hbelow.trans ?_⟩
  · decide +kernel
  · decide +kernel

end TextEdit

end CodeGraph
