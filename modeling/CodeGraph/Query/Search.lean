import CodeGraph.Workspace.Basic

/-!
# Fuzzy search

A pattern matches a name when its letters appear there in order; the score prefers letters at the
starts of words and runs of letters. Scores are computed on two rows of cells, one for the current
and one for the previous letter of the pattern. The rows are kept from one name to the next: what a
name leaves in them is still there for the names after it.
-/

namespace CodeGraph.Fuzzy

/-! ### Characters -/

inductive CharClass where
  | none
  | hard
  | soft
  | digit
  | upper
  | lower
  deriving DecidableEq, Repr

def classOf (char : Char) : CharClass :=
  if char = '\x00' then .none
  else if char ∈ [' ', '/', '\\', '|', '(', ')', '[', ']', '\x7b', '\x7d'] then .hard
  else if ('!' ≤ char ∧ char ≤ '\'') ∨ ('*' ≤ char ∧ char ≤ '.') ∨
      (':' ≤ char ∧ char ≤ '@') ∨ ('^' ≤ char ∧ char ≤ '\x60') ∨ char = '~' then .soft
  else if '0' ≤ char ∧ char ≤ '9' then .digit
  else if 'A' ≤ char ∧ char ≤ 'Z' then .upper
  else .lower

/-- The bonus of a place between two characters: high at the start of a word. -/
def placeBonus (before char : Char) : Int :=
  match classOf before, classOf char with
  | .none, _ | .hard, _ => 8
  | .soft, _ => 7
  | .lower, .upper | .digit, .upper => 6
  | _, _ => 0

def foldCase (char : Char) : Char :=
  if 'A' ≤ char ∧ char ≤ 'Z' then Char.ofNat (char.toNat + 32) else char

/-- A pattern with a capital letter is taken literally. -/
def isCaseSensitive (pattern : List Char) : Bool :=
  pattern.any fun char => 'A' ≤ char && char ≤ 'Z'

def agrees (sensitive : Bool) (left right : Char) : Bool :=
  if sensitive then left = right else foldCase left = foldCase right

/-! ### Cells -/

/-- The best scores that end at a place: with a match there, and with a gap before it. -/
structure Cell where
  matched : Int
  skipped : Int
  bonus : Int
  deriving DecidableEq, Repr, Inhabited

def lowest : Int := -32768

def Cell.fresh : Cell := ⟨lowest, lowest, 0⟩

/-- Two rows of cells, one after the other. -/
structure Board where
  cells : Array Cell := #[]
  columns : Nat := 0
  deriving Repr

namespace Board

/-- Two rows for a name; the cells so far stay where they are, one after the other. -/
def resize (board : Board) (columns : Nat) : Board :=
  let kept := board.cells.take (2 * columns)
  ⟨kept ++ Array.replicate (2 * columns - kept.size) .fresh, columns⟩

def get (board : Board) (row column : Nat) : Cell :=
  board.cells.getD (row * board.columns + column) .fresh

def set (board : Board) (row column : Nat) (cell : Cell) : Board :=
  { board with cells := board.cells.setIfInBounds (row * board.columns + column) cell }

end Board

/-! ### Scores -/

/-- The leftmost places of the pattern's letters in a name, if it has them all in order. -/
def leftmost? (sensitive : Bool) : List Char → List (Char × Nat) → Option (List Nat)
  | [], _ => some []
  | _ :: _, [] => none
  | wanted :: rest, (char, place) :: places =>
    if agrees sensitive char wanted then
      (leftmost? sensitive rest places).map (place :: ·)
    else leftmost? sensitive (wanted :: rest) places

/-- The bonus of each place; the first character's counts twice. -/
def bonuses (name : List Char) : List Int :=
  match List.zipWith placeBonus ('\x00' :: name) name with
  | [] => []
  | first :: rest => 2 * first :: rest

def matchScore (sensitive : Bool) (char wanted : Char) : Int :=
  if !sensitive && char ≠ wanted then 14 else 16

/-- Fills one cell of a row from its left neighbour and the row before. -/
def fillCell (sensitive : Bool) (wanted : Char) (row : Nat) (board : Board)
    (entry : (Char × Int) × Nat) : Board :=
  let ((char, bonus), place) := entry
  let left := board.get row place
  let before := board.get (1 - row) place
  let current := board.get row (place + 1)
  let skipped := max (left.matched - 4) (left.skipped - 1)
  if agrees sensitive char wanted then
    let run := max (max left.bonus bonus) 4
    let matched := max (before.matched + run) (before.skipped + bonus) +
      matchScore sensitive char wanted
    (board.set row place { left with bonus := run }).set row (place + 1)
      { current with matched, skipped }
  else board.set row (place + 1) ⟨lowest, skipped, 0⟩

/-- Fills the row of one letter of the pattern, from its leftmost place on. -/
def fillRow (sensitive : Bool) (name : List (Char × Int)) (board : Board)
    (entry : (Char × Nat) × Nat) : Board :=
  let ((wanted, first), index) := entry
  (name.zipIdx.drop first).foldl (fillCell sensitive wanted ((index + 1) % 2)) board

def clearStart (board : Board) (first : Nat) : Board :=
  let board := board.set 1 first .fresh
  (List.range board.columns).foldl (fun board column => board.set 0 column ⟨lowest, -1, 0⟩) board

/-- The score of a name, if the pattern matches it, and the cells it leaves behind. An empty pattern
matches every name. -/
def score (board : Board) (name pattern : List Char) : Option Int × Board :=
  if pattern.isEmpty then (some 0, board)
  else
    let sensitive := isCaseSensitive pattern
    match leftmost? sensitive pattern name.zipIdx with
    | none => (none, board)
    | some places =>
      let board := clearStart (board.resize (name.length + 1)) (places.headD 0)
      let board := ((pattern.zip places).zipIdx).foldl
        (fillRow sensitive (name.zip (bonuses name))) board
      let last := places.getLastD 0
      let row := pattern.length % 2
      let best := ((List.range board.columns).drop last).map fun column =>
        (board.get row column).matched
      (some (best.foldl max (best.headD lowest)), board)

end CodeGraph.Fuzzy

namespace CodeGraph

structure SearchHit where
  node : Node
  score : Int
  deriving Repr

namespace Workspace

/-- Scores the nodes in turn, slot by slot. -/
def scoreAll (pattern : List Char) : Fuzzy.Board → List Node → List SearchHit
  | _, [] => []
  | board, node :: rest =>
    match Fuzzy.score board node.qualifiedName.toList pattern with
    | (some score, board) => ⟨node, score⟩ :: scoreAll pattern board rest
    | (none, board) => scoreAll pattern board rest

/-- The symbols whose qualified names match best, at most `limit` of them; equal scores are in the
order of ids. -/
def search (workspace : Workspace) (query : String) (limit : Nat) : List SearchHit :=
  let symbols := workspace.graph.nodesBySlot.filter fun node => node.kind.isSymbol
  let hits := scoreAll query.toList {} symbols
  (hits.mergeSort fun left right =>
    right.score < left.score || (left.score = right.score && left.node.id ≤ right.node.id)).take
    limit

end Workspace

end CodeGraph
