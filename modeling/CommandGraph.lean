import CommandGraph.Command
import CommandGraph.Expr.Basic
import CommandGraph.Expr.Eval
import CommandGraph.Expr.Lexer
import CommandGraph.Expr.Parser
import CommandGraph.Expr.Printer
import CommandGraph.Expr.Token
import CommandGraph.Grammar.Basic
import CommandGraph.Grammar.Json
import CommandGraph.Graph.Basic
import CommandGraph.Graph.Edit
import CommandGraph.Graph.Factory
import CommandGraph.Graph.Refresh
import CommandGraph.Graph.Resolve
import CommandGraph.Graph.Snapshot
import CommandGraph.Json.Basic
import CommandGraph.Json.Reader
import CommandGraph.Json.Writer
import CommandGraph.Key.Basic
import CommandGraph.Key.Text
import CommandGraph.Library
import CommandGraph.Main
import CommandGraph.Number.Binary64
import CommandGraph.Number.Decimal
import CommandGraph.Occurrence.Basic
import CommandGraph.Occurrence.Walk
import CommandGraph.Proofs.Command.Completion
import CommandGraph.Proofs.Command.Coverage
import CommandGraph.Proofs.Command.Refilling
import CommandGraph.Proofs.Except
import CommandGraph.Proofs.Expr.Budget
import CommandGraph.Proofs.Expr.DepthLimit
import CommandGraph.Proofs.Expr.Height
import CommandGraph.Proofs.Expr.Lexing
import CommandGraph.Proofs.Expr.Nodes
import CommandGraph.Proofs.Expr.Parsing
import CommandGraph.Proofs.Expr.Quoting
import CommandGraph.Proofs.Expr.Room
import CommandGraph.Proofs.Expr.RoundTrip
import CommandGraph.Proofs.Expr.Tokens
import CommandGraph.Proofs.Grammar.Address
import CommandGraph.Proofs.Grammar.Children
import CommandGraph.Proofs.Graph.Edited
import CommandGraph.Proofs.Graph.Hops
import CommandGraph.Proofs.Graph.InPlace
import CommandGraph.Proofs.Graph.Lookup
import CommandGraph.Proofs.Graph.Numbering
import CommandGraph.Proofs.Graph.Refreshed
import CommandGraph.Proofs.Graph.Resizing
import CommandGraph.Proofs.Graph.Resolution
import CommandGraph.Proofs.Graph.Results
import CommandGraph.Proofs.Graph.RoundTrip
import CommandGraph.Proofs.Graph.Running
import CommandGraph.Proofs.Graph.Selecting
import CommandGraph.Proofs.Graph.Sites
import CommandGraph.Proofs.Graph.SnapshotText
import CommandGraph.Proofs.Graph.Waiting
import CommandGraph.Proofs.Graph.WellFormed
import CommandGraph.Proofs.Json.RoundTrip
import CommandGraph.Proofs.Json.Tokens
import CommandGraph.Proofs.Key.RoundTrip
import CommandGraph.Proofs.Occurrence.Address
import CommandGraph.Proofs.Occurrence.Apart
import CommandGraph.Proofs.Occurrence.Bindings
import CommandGraph.Proofs.Occurrence.Branches
import CommandGraph.Proofs.Occurrence.Dead
import CommandGraph.Proofs.Occurrence.Depths
import CommandGraph.Proofs.Occurrence.Effects
import CommandGraph.Proofs.Occurrence.Lasting
import CommandGraph.Proofs.Occurrence.Nesting
import CommandGraph.Proofs.Occurrence.Reads
import CommandGraph.Proofs.Occurrence.Reread
import CommandGraph.Proofs.Occurrence.Unfolding
import CommandGraph.Proofs.Render.Alike
import CommandGraph.Proofs.Render.Bypass
import CommandGraph.Proofs.Render.Chain
import CommandGraph.Proofs.Render.Covered
import CommandGraph.Proofs.Render.Cycles
import CommandGraph.Proofs.Render.DepthFirst
import CommandGraph.Proofs.Render.Effects
import CommandGraph.Proofs.Render.Flow
import CommandGraph.Proofs.Render.Indented
import CommandGraph.Proofs.Render.Logged
import CommandGraph.Proofs.Render.Once
import CommandGraph.Proofs.Render.Order
import CommandGraph.Proofs.Render.Search
import CommandGraph.Proofs.Render.Splice
import CommandGraph.Proofs.Render.Statements
import CommandGraph.Proofs.Render.Texts
import CommandGraph.Proofs.Render.Traversal
import CommandGraph.Proofs.Socket.Channels
import CommandGraph.Proofs.Socket.Keys
import CommandGraph.Proofs.Text.Digits
import CommandGraph.Proofs.Text.Lines
import CommandGraph.Render.Arguments
import CommandGraph.Render.Generate
import CommandGraph.Render.Text
import CommandGraph.Socket
import CommandGraph.Text.Characters
import CommandGraph.Text.Unprintable
import CommandGraph.Values
