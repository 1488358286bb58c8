import Offside.Catalog
import Offside.Command
import Offside.Fault
import Offside.Files.Basic
import Offside.Files.Path
import Offside.Heap.Basic
import Offside.Heap.Bindings
import Offside.Heap.Value
import Offside.Log
import Offside.Machine.Operate
import Offside.Machine.Resolve
import Offside.Machine.Run
import Offside.Machine.State
import Offside.Machine.Step
import Offside.Main
import Offside.Module.Basic
import Offside.Module.Manifest
import Offside.Number.Basic
import Offside.Number.Read
import Offside.Number.Render
import Offside.Number.Shortest
import Offside.Outline
import Offside.Program.Basic
import Offside.Program.Outline
import Offside.Program.Parser.Basic
import Offside.Program.Parser.Declaration
import Offside.Program.Parser.Expression
import Offside.Program.Parser.Statement
import Offside.Program.Print
import Offside.Proofs.Files.Path
import Offside.Proofs.Files.Tree
import Offside.Proofs.Grammar.Basic
import Offside.Proofs.Grammar.Blame
import Offside.Proofs.Grammar.Complaint
import Offside.Proofs.Grammar.Declaration
import Offside.Proofs.Grammar.Expression
import Offside.Proofs.Grammar.Layout
import Offside.Proofs.Grammar.LineRuns
import Offside.Proofs.Grammar.Lookahead
import Offside.Proofs.Grammar.Padding
import Offside.Proofs.Grammar.Program
import Offside.Proofs.Grammar.Progress
import Offside.Proofs.Grammar.Promptness
import Offside.Proofs.Grammar.Reading
import Offside.Proofs.Grammar.Repetition
import Offside.Proofs.Grammar.Statement
import Offside.Proofs.Grammar.Tolerance
import Offside.Proofs.Grammar.Viability
import Offside.Proofs.Heap.Changes
import Offside.Proofs.Heap.Contents
import Offside.Proofs.Heap.Copies
import Offside.Proofs.Heap.Forms
import Offside.Proofs.Heap.Ownership
import Offside.Proofs.Machine.Assignment
import Offside.Proofs.Machine.Called
import Offside.Proofs.Machine.Callee
import Offside.Proofs.Machine.Calls
import Offside.Proofs.Machine.Comparison
import Offside.Proofs.Machine.Console
import Offside.Proofs.Machine.Edits
import Offside.Proofs.Machine.Erasure
import Offside.Proofs.Machine.Evaluation
import Offside.Proofs.Machine.Expressions
import Offside.Proofs.Machine.Framing
import Offside.Proofs.Machine.Hidden
import Offside.Proofs.Machine.Iteration
import Offside.Proofs.Machine.Matching
import Offside.Proofs.Machine.Operands
import Offside.Proofs.Machine.Parallel
import Offside.Proofs.Machine.Receivers
import Offside.Proofs.Machine.Renewal
import Offside.Proofs.Machine.Returns
import Offside.Proofs.Machine.Safety
import Offside.Proofs.Machine.Sense
import Offside.Proofs.Machine.Shape
import Offside.Proofs.Machine.Simulation
import Offside.Proofs.Machine.Storing
import Offside.Proofs.Machine.Unrelated
import Offside.Proofs.Machine.Waiting
import Offside.Proofs.Machine.World
import Offside.Proofs.Module.History
import Offside.Proofs.Module.Manifest
import Offside.Proofs.Number.Figure
import Offside.Proofs.Number.Literal
import Offside.Proofs.Number.Nearest
import Offside.Proofs.Number.Numeral
import Offside.Proofs.Number.Order
import Offside.Proofs.Number.Overflow
import Offside.Proofs.Number.Rounding
import Offside.Proofs.Program.Ambiguity
import Offside.Proofs.Program.Bare
import Offside.Proofs.Program.Catalog
import Offside.Proofs.Program.Comments
import Offside.Proofs.Program.Load
import Offside.Proofs.Program.Locations
import Offside.Proofs.Program.Numerals
import Offside.Proofs.Program.Pieces
import Offside.Proofs.Program.ReadBack
import Offside.Proofs.Program.Recast
import Offside.Proofs.Program.References
import Offside.Proofs.Program.Types
import Offside.Proofs.Session
import Offside.Proofs.Token.Alongside
import Offside.Proofs.Token.CommentLine
import Offside.Proofs.Token.Consuming
import Offside.Proofs.Token.Cut
import Offside.Proofs.Token.Enclosure
import Offside.Proofs.Token.Failures
import Offside.Proofs.Token.Listing
import Offside.Proofs.Token.Lossless
import Offside.Proofs.Token.Margins
import Offside.Proofs.Token.Nesting
import Offside.Proofs.Token.Phrases
import Offside.Proofs.Token.Scanning
import Offside.Proofs.Token.SpaceRuns
import Offside.Proofs.Token.Spacing
import Offside.Session
import Offside.Source
import Offside.Text.Basic
import Offside.Text.Classes
import Offside.Text.Quoted
import Offside.Text.UpperCase
import Offside.Token.Basic
import Offside.Token.Cursor
import Offside.Token.Kind
import Offside.Token.Scanner
import Offside.Upshot
