import FormatPreview.Arguments.Basic
import FormatPreview.Arguments.Help
import FormatPreview.Arguments.Reader
import FormatPreview.Batch
import FormatPreview.Bridge.Message
import FormatPreview.Bridge.Process
import FormatPreview.Bridge.Replies
import FormatPreview.Check
import FormatPreview.Comparison
import FormatPreview.Decimal.Binary
import FormatPreview.Decimal.Shortest
import FormatPreview.Dictionary
import FormatPreview.Diff.Compaction
import FormatPreview.Diff.Edit
import FormatPreview.Diff.Hunk
import FormatPreview.Diff.Patch
import FormatPreview.Diff.Script
import FormatPreview.Diff.Workspace
import FormatPreview.Engine
import FormatPreview.Environment.Assignment
import FormatPreview.Environment.File
import FormatPreview.Event
import FormatPreview.Invocation
import FormatPreview.Invocation.Description
import FormatPreview.Json.Basic
import FormatPreview.Json.Document
import FormatPreview.Json.Numeral
import FormatPreview.Json.Token
import FormatPreview.Log
import FormatPreview.Main
import FormatPreview.Options
import FormatPreview.Path
import FormatPreview.Pattern.Brace
import FormatPreview.Pattern.Glob
import FormatPreview.Pattern.Wildcard
import FormatPreview.Report
import FormatPreview.Run
import FormatPreview.Settings
import FormatPreview.Sink
import FormatPreview.Style
import FormatPreview.Targets
import FormatPreview.Text.Blank
import FormatPreview.Text.Hidden
import FormatPreview.Text.Line
import FormatPreview.Text.Quoted
import FormatPreview.Text.Similarity
import FormatPreview.Text.Utf8
import FormatPreview.Tree.Basic
import FormatPreview.Tree.Search
import FormatPreview.Tree.Source
import FormatPreview.Proofs.Diff.Compaction
import FormatPreview.Proofs.Diff.Block
import FormatPreview.Proofs.Diff.Hunk
import FormatPreview.Proofs.Diff.Reading
import FormatPreview.Proofs.Diff.Printing
import FormatPreview.Proofs.Diff.Conversion
import FormatPreview.Proofs.Batch
import FormatPreview.Proofs.Report
import FormatPreview.Proofs.Run
import FormatPreview.Proofs.TargetOrder
import FormatPreview.Proofs.Loading
import FormatPreview.Proofs.Pattern.Nesting
import FormatPreview.Proofs.Pattern.Brace
import FormatPreview.Proofs.Text.Piece
import FormatPreview.Proofs.Diff.Row
import FormatPreview.Proofs.Style
import FormatPreview.Proofs.Rendering
import FormatPreview.Proofs.Dictionary
import FormatPreview.Proofs.Options
import FormatPreview.Proofs.Options.Origin
import FormatPreview.Proofs.Text.Utf8
import FormatPreview.Proofs.Contents
import FormatPreview.Proofs.Json.Encoding
import FormatPreview.Proofs.Json.Numeral
import FormatPreview.Proofs.Json.Token
import FormatPreview.Proofs.Json.Document
import FormatPreview.Proofs.Bridge
import FormatPreview.Proofs.Task
import FormatPreview.Proofs.Options.Layer
import FormatPreview.Proofs.Options.Stack
import FormatPreview.Proofs.Schedule
import FormatPreview.Proofs.Diff.Grouping
import FormatPreview.Proofs.Diff.Context
import FormatPreview.Proofs.Diff.Excerpt
import FormatPreview.Proofs.LoadFailure
import FormatPreview.Proofs.Tree.Walk
import FormatPreview.Proofs.Tree.Expansion
import FormatPreview.Proofs.Tree.Ignored
import FormatPreview.Proofs.Pattern.Target
import FormatPreview.Proofs.Limit
import FormatPreview.Proofs.Summary
import FormatPreview.Proofs.Json.Spelling
import FormatPreview.Proofs.Json.Syntax
import FormatPreview.Proofs.Json.Meaning
import FormatPreview.Proofs.Bridge.Reply
import FormatPreview.Pattern.Scan
import FormatPreview.Proofs.Pattern.Scan
import FormatPreview.Proofs.Settings
import FormatPreview.Proofs.Diff.Common
import FormatPreview.Proofs.Diff.Search
import FormatPreview.Proofs.Diff.Cost
import FormatPreview.Proofs.Diff.Frontier
import FormatPreview.Proofs.Diff.Amount
import FormatPreview.Proofs.Diff.Shortest
import FormatPreview.Proofs.Diff.Unified
import FormatPreview.Proofs.Diff.Workspace
