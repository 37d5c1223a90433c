import CodeGraph.Config.Basic
import CodeGraph.Config.Read
import CodeGraph.Config.Validate
import CodeGraph.Disk.Basic
import CodeGraph.Disk.Changes
import CodeGraph.Disk.Ignore
import CodeGraph.Document.Basic
import CodeGraph.Document.Config
import CodeGraph.Document.Facts
import CodeGraph.Document.Workspace
import CodeGraph.Engine
import CodeGraph.Facts.Basic
import CodeGraph.Facts.Ecma
import CodeGraph.Facts.Extract
import CodeGraph.Facts.Go
import CodeGraph.Facts.Handout
import CodeGraph.Facts.Java
import CodeGraph.Facts.Pairing
import CodeGraph.Facts.Python
import CodeGraph.Facts.Rust
import CodeGraph.Facts.Scope
import CodeGraph.Facts.Signature
import CodeGraph.Facts.TypeScript
import CodeGraph.Facts.Walk
import CodeGraph.Glob.Basic
import CodeGraph.Glob.Match
import CodeGraph.Glob.Parse
import CodeGraph.Graph.Arena
import CodeGraph.Graph.Basic
import CodeGraph.Graph.Confidence
import CodeGraph.Graph.Consistency
import CodeGraph.Graph.Delta
import CodeGraph.Graph.Edge
import CodeGraph.Graph.IdSet
import CodeGraph.Graph.NameIndex
import CodeGraph.Graph.Node
import CodeGraph.Graph.Slots
import CodeGraph.Graph.Stored
import CodeGraph.Import.Plan
import CodeGraph.Import.Respell
import CodeGraph.Language
import CodeGraph.Matching
import CodeGraph.Number.Nearest
import CodeGraph.Number.Shortest
import CodeGraph.Parsed
import CodeGraph.Path
import CodeGraph.PathSet
import CodeGraph.Project
import CodeGraph.Proofs.Disk.Changes
import CodeGraph.Proofs.Disk.Mirror
import CodeGraph.Proofs.Disk.Place
import CodeGraph.Proofs.Disk.Restore
import CodeGraph.Proofs.Disk.Tree
import CodeGraph.Proofs.Facts.Descent
import CodeGraph.Proofs.Facts.Ecma
import CodeGraph.Proofs.Facts.Extract
import CodeGraph.Proofs.Facts.Go
import CodeGraph.Proofs.Facts.Handout
import CodeGraph.Proofs.Facts.Java
import CodeGraph.Proofs.Facts.Maximal
import CodeGraph.Proofs.Facts.Pairing
import CodeGraph.Proofs.Facts.Python
import CodeGraph.Proofs.Facts.Rust
import CodeGraph.Proofs.Facts.Spots
import CodeGraph.Proofs.Facts.Spots.Ecma
import CodeGraph.Proofs.Facts.Spots.Python
import CodeGraph.Proofs.Facts.Walk
import CodeGraph.Proofs.Graph.Age
import CodeGraph.Proofs.Graph.Agree
import CodeGraph.Proofs.Graph.Arena
import CodeGraph.Proofs.Graph.Cascade
import CodeGraph.Proofs.Graph.Consistent
import CodeGraph.Proofs.Graph.Edges
import CodeGraph.Proofs.Graph.Evolve
import CodeGraph.Proofs.Graph.Faithful
import CodeGraph.Proofs.Graph.Indices
import CodeGraph.Proofs.Graph.Journal
import CodeGraph.Proofs.Graph.Removal
import CodeGraph.Proofs.Graph.Session
import CodeGraph.Proofs.Graph.Slots
import CodeGraph.Proofs.Graph.Stored
import CodeGraph.Proofs.Graph.View
import CodeGraph.Proofs.Import.Plan
import CodeGraph.Proofs.Import.Respell
import CodeGraph.Proofs.Import.RoundTrip
import CodeGraph.Proofs.Matching
import CodeGraph.Proofs.Path
import CodeGraph.Proofs.Path.Walk
import CodeGraph.Proofs.Query.Cycles
import CodeGraph.Proofs.Query.EdgeTriples
import CodeGraph.Proofs.Query.Reach
import CodeGraph.Proofs.Table
import CodeGraph.Proofs.Text
import CodeGraph.Proofs.Text.Points
import CodeGraph.Proofs.Transaction.Apply
import CodeGraph.Proofs.Transaction.Base
import CodeGraph.Proofs.Transaction.Cycles
import CodeGraph.Proofs.Transaction.Evolve
import CodeGraph.Proofs.Transaction.Follow
import CodeGraph.Proofs.Transaction.Fresh
import CodeGraph.Proofs.Transaction.Identity
import CodeGraph.Proofs.Transaction.Index
import CodeGraph.Proofs.Transaction.Inside
import CodeGraph.Proofs.Transaction.Journal
import CodeGraph.Proofs.Transaction.Lifecycle
import CodeGraph.Proofs.Transaction.Members
import CodeGraph.Proofs.Transaction.Mirror
import CodeGraph.Proofs.Transaction.Outlook
import CodeGraph.Proofs.Transaction.Propagation
import CodeGraph.Proofs.Transaction.Queue
import CodeGraph.Proofs.Transaction.Reach
import CodeGraph.Proofs.Transaction.Reachable
import CodeGraph.Proofs.Transaction.Rename
import CodeGraph.Proofs.Transaction.Respell
import CodeGraph.Proofs.Transaction.Resync
import CodeGraph.Proofs.Transaction.Search
import CodeGraph.Proofs.Transaction.Settle
import CodeGraph.Proofs.Transaction.Spare
import CodeGraph.Proofs.Transaction.Uses
import CodeGraph.Proofs.Tree.Faults
import CodeGraph.Proofs.Workspace.Acyclic
import CodeGraph.Proofs.Workspace.Bind
import CodeGraph.Proofs.Workspace.Ending
import CodeGraph.Proofs.Workspace.Files
import CodeGraph.Proofs.Workspace.Follow
import CodeGraph.Proofs.Workspace.Fresh
import CodeGraph.Proofs.Workspace.Importers
import CodeGraph.Proofs.Workspace.Imports
import CodeGraph.Proofs.Workspace.Inherit
import CodeGraph.Proofs.Workspace.Install
import CodeGraph.Proofs.Workspace.Invariant
import CodeGraph.Proofs.Workspace.Move
import CodeGraph.Proofs.Workspace.Nodes
import CodeGraph.Proofs.Workspace.Quest
import CodeGraph.Proofs.Workspace.Reorder
import CodeGraph.Proofs.Workspace.Replay
import CodeGraph.Proofs.Workspace.Resolve
import CodeGraph.Proofs.Workspace.Respelled
import CodeGraph.Proofs.Workspace.Settle
import CodeGraph.Proofs.Workspace.Splice
import CodeGraph.Proofs.Workspace.Strongest
import CodeGraph.Proofs.Workspace.Swap
import CodeGraph.Proofs.Workspace.Symbols
import CodeGraph.Proofs.Workspace.Track
import CodeGraph.Proofs.Workspace.Written
import CodeGraph.Query.Cycles
import CodeGraph.Query.Reach
import CodeGraph.Query.Search
import CodeGraph.Query.Stats
import CodeGraph.Query.Symbols
import CodeGraph.Regex
import CodeGraph.Table
import CodeGraph.Text.Alphanumeric
import CodeGraph.Text.Bytes
import CodeGraph.Text.Combining
import CodeGraph.Text.Edit
import CodeGraph.Text.Lossy
import CodeGraph.Text.Quoted
import CodeGraph.Text.Range
import CodeGraph.Text.Runs
import CodeGraph.Text.Unprintable
import CodeGraph.Text.Uppercase
import CodeGraph.Toml.Basic
import CodeGraph.Toml.Numbers
import CodeGraph.Toml.Parse
import CodeGraph.Toml.Reader
import CodeGraph.Toml.Strings
import CodeGraph.Toml.Tables
import CodeGraph.Transaction.Apply
import CodeGraph.Transaction.Basic
import CodeGraph.Transaction.Follow
import CodeGraph.Transaction.Queue
import CodeGraph.Transaction.Validate
import CodeGraph.Tree
import CodeGraph.Workspace.Basic
import CodeGraph.Workspace.Bind
import CodeGraph.Workspace.Build
import CodeGraph.Workspace.Consistency
import CodeGraph.Workspace.Converge
import CodeGraph.Workspace.Link
import CodeGraph.Workspace.Move
import CodeGraph.Workspace.Names
import CodeGraph.Workspace.Pass
import CodeGraph.Workspace.Resolve
