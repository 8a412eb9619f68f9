import SyntaxTree.Main
import SyntaxTree.Build.TreeBuilder
import SyntaxTree.Proofs.Json.Grammar
import SyntaxTree.Proofs.Json.Token
import SyntaxTree.Proofs.Json.Numeral
import SyntaxTree.Proofs.Json.Quote
import SyntaxTree.Proofs.Json.Reading
import SyntaxTree.Proofs.Json.Written
import SyntaxTree.Proofs.Json.Document
import SyntaxTree.Proofs.Json.Excess
import SyntaxTree.Proofs.Json.Faults
import SyntaxTree.Proofs.Json.Skip
import SyntaxTree.Proofs.Decoder.Buffered
import SyntaxTree.Proofs.Decoder.Tagged
import SyntaxTree.Proofs.Decoder.Fields
import SyntaxTree.Proofs.Decoder.Tags
import SyntaxTree.Proofs.Decoder.Containers
import SyntaxTree.Proofs.Decoder.Streams
import SyntaxTree.Proofs.Node.Children
import SyntaxTree.Proofs.Node.Record
import SyntaxTree.Proofs.Node.RoundTrip
import SyntaxTree.Proofs.Node.Layout
import SyntaxTree.Proofs.Node.Alike
import SyntaxTree.Proofs.Node.Rewriting
import SyntaxTree.Proofs.Node.Places
import SyntaxTree.Proofs.Node.Depth
import SyntaxTree.Proofs.Node.Reprint
import SyntaxTree.Proofs.Node.Untagged
import SyntaxTree.Proofs.Node.Kernel
import SyntaxTree.Proofs.Node.Reads
import SyntaxTree.Proofs.Node.Gaps
import SyntaxTree.Proofs.Node.Routes
import SyntaxTree.Proofs.Node.Standing
import SyntaxTree.Proofs.Node.Faults
import SyntaxTree.Proofs.Node.Extent
import SyntaxTree.Proofs.Node.Duplicates
import SyntaxTree.Proofs.Node.Plain
import SyntaxTree.Proofs.Node.Direct
import SyntaxTree.Proofs.Walk.Steps
import SyntaxTree.Proofs.Walk.Calls
import SyntaxTree.Proofs.Walk.Contract
import SyntaxTree.Proofs.Walk.Shape
import SyntaxTree.Proofs.Walk.EventTexts
import SyntaxTree.Proofs.Walk.EventRecords
import SyntaxTree.Proofs.Walk.Lines
import SyntaxTree.Proofs.Walk.LineBreaks
import SyntaxTree.Proofs.Walk.Records
import SyntaxTree.Proofs.Walk.Indentation
import SyntaxTree.Proofs.Walk.Counts
import SyntaxTree.Proofs.Walk.Tours
import SyntaxTree.Proofs.Walk.Recursion
import SyntaxTree.Proofs.Walk.Measures
import SyntaxTree.Proofs.Walk.Metadata
import SyntaxTree.Proofs.Walk.Handling
import SyntaxTree.Proofs.Build.Levels
import SyntaxTree.Proofs.Build.Drains
import SyntaxTree.Proofs.Build.Scopes
import SyntaxTree.Proofs.Build.Arena
import SyntaxTree.Proofs.Build.Refinement
import SyntaxTree.Proofs.Build.History
import SyntaxTree.Proofs.Build.Ledger
import SyntaxTree.Proofs.Build.Failures
import SyntaxTree.Proofs.Build.Conservation
import SyntaxTree.Proofs.Build.Construction
import SyntaxTree.Proofs.Build.Stuck
import SyntaxTree.Proofs.Build.Requests
import SyntaxTree.Proofs.Command.Answers
import SyntaxTree.Proofs.Command.Reports
