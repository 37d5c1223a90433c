import CodeGraph.Disk.Changes
import CodeGraph.Workspace.Converge

/-!
# Transactions

A transaction asks for one change to one file. It is committed, with the number of the commit and
what the commit touched, or rejected for a cause.
-/

namespace CodeGraph

inductive Change where
  /-- Replaces a range; `base` is the commit after which the range was chosen. -/
  | edit (path : Path) (range : ByteRange) (text : String) (base : Option Nat)
  | add (path : Path) (content : String)
  | remove (path : Path)
  | rename (source target : Path)
  deriving DecidableEq, Repr

/-- Of two transactions in the queue the one of higher priority goes first. -/
structure Transaction where
  change : Change
  priority : Int := 0
  deriving DecidableEq, Repr

abbrev TransactionId := Nat

inductive Rejection where
  | fileNotFound (path : Path)
  | fileExists (path : Path)
  | invalidPath (path : Path)
  | invalidRange (path : Path) (range : ByteRange) (size : Nat)
  | staleRange (path : Path) (range : ByteRange) (base : Nat)
  | unsupportedFile (path : Path)
  | cancelled
  | failed (error : SyncError)
  | disk (error : DiskError)
  deriving DecidableEq, Repr

namespace Rejection

/-- The kind of cause, as one word. -/
def code : Rejection → String
  | fileNotFound _ => "file_not_found"
  | fileExists _ => "file_exists"
  | invalidPath _ => "invalid_path"
  | invalidRange .. => "invalid_range"
  | staleRange .. => "stale_range"
  | unsupportedFile _ => "unsupported_language"
  | cancelled => "cancelled"
  | failed (.parse _) => "unsupported_language"
  | failed (.unknownFile _) => "file_not_found"
  | failed (.graph _) => "inconsistent"
  | failed (.violated _) => "inconsistent"
  | disk _ => "io"

def rangeText (range : ByteRange) : String :=
  toString range.start ++ ".." ++ toString range.stop

/-- The cause in words; a failure of the disk has none of its own. -/
def message? : Rejection → Option String
  | fileNotFound path => some (path.text ++ " is not in the workspace")
  | fileExists path => some (path.text ++ " already exists")
  | invalidPath path => some (path.text ++ " is not a path inside the project")
  | invalidRange path range size =>
    some (rangeText range ++ " is not a valid range of " ++ path.text ++ " (" ++ toString size ++
      " bytes)")
  | staleRange path range base =>
    some (rangeText range ++ " of " ++ path.text ++ " was shifted by an edit applied after #" ++
      toString base)
  | unsupportedFile path => some (path.text ++ " is not a supported source file")
  | cancelled => some "cancelled while queued"
  | failed error => some error.message
  | disk _ => none

end Rejection

structure Commit where
  sequence : Nat
  /-- The nodes that were touched, with both ends of the edges that were. -/
  changed : IdSet
  mutations : Nat
  deriving DecidableEq, Repr

inductive TransactionResult where
  | committed (commit : Commit)
  | rejected (rejection : Rejection)
  deriving DecidableEq, Repr

def TransactionResult.isCommitted : TransactionResult → Bool
  | committed _ => true
  | rejected _ => false

inductive TransactionState where
  | queued
  | validating
  | applying
  | committed
  | rejected
  deriving DecidableEq, Repr

def TransactionState.isTerminal : TransactionState → Bool
  | committed | rejected => true
  | queued | validating | applying => false

def TransactionResult.state : TransactionResult → TransactionState
  | committed _ => .committed
  | rejected _ => .rejected

end CodeGraph
