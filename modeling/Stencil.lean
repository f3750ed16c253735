import Stencil.Registry
import Stencil.Proofs.Action
import Stencil.Proofs.Expr.Cursor
import Stencil.Proofs.Expr.Grammar
import Stencil.Proofs.Expr.Steps
import Stencil.Proofs.Expr.Lookahead
import Stencil.Proofs.Expr.Operators
import Stencil.Proofs.Expr.Soundness
import Stencil.Proofs.Expr.Completeness
import Stencil.Proofs.Node.Grammar
import Stencil.Proofs.Node.Soundness
import Stencil.Proofs.Node.Completeness
import Stencil.Proofs.Token.Spelling
import Stencil.Proofs.Token.Separated
import Stencil.Proofs.Number.Bits
import Stencil.Proofs.Number.Rounding
import Stencil.Proofs.Number.Shortest
import Stencil.Proofs.Number.Decimal
import Stencil.Proofs.Number.Text
import Stencil.Proofs.Segment.Scan
import Stencil.Proofs.Segment.Split
import Stencil.Proofs.Expr.Delimited
import Stencil.Proofs.Expr.Print
import Stencil.Proofs.Expr.ReadBack
import Stencil.Proofs.Node.Tag
import Stencil.Proofs.Node.Print
import Stencil.Proofs.Node.Writing
import Stencil.Proofs.Node.Embedding
import Stencil.Proofs.Node.ReadBack
import Stencil.Proofs.Eval.Scopes
import Stencil.Proofs.Eval.Agreement
import Stencil.Proofs.Eval.Law
import Stencil.Proofs.Eval.Budget
import Stencil.Proofs.Filter.Failure
import Stencil.Proofs.Eval.Resolution
import Stencil.Proofs.Expr.Loops
import Stencil.Proofs.Expr.Viable
import Stencil.Proofs.Expr.Blame
import Stencil.Proofs.Node.Limit
import Stencil.Proofs.Text.Utf8
import Stencil.Proofs.Segment.Lossless
import Stencil.Proofs.Segment.Bytes
import Stencil.Proofs.Node.Verbatim
import Stencil.Proofs.Node.Position
import Stencil.Proofs.Segment.Seam
import Stencil.Proofs.Eval.Sequence
import Stencil.Proofs.Node.Concat
import Stencil.Proofs.Value.Order
import Stencil.Proofs.Value.Nested
import Stencil.Proofs.Value.Json
import Stencil.Proofs.Value.Equality
import Stencil.Proofs.Filter.Sort
import Stencil.Proofs.Registry.History
import Stencil.Proofs.Filter.Merge
import Stencil.Proofs.Filter.Keys
import Stencil.Proofs.Number.Sign
import Stencil.Proofs.Number.Interval
import Stencil.Proofs.Number.Nearest
import Stencil.Proofs.Number.Minimal
import Stencil.Proofs.Number.Canonical
import Stencil.Proofs.Node.NumberText
import Stencil.Proofs.Number.Integer
import Stencil.Proofs.Number.Natural
import Stencil.Proofs.Eval.Member
import Stencil.Proofs.Eval.Operator
import Stencil.Proofs.Token.Reading
import Stencil.Proofs.Token.Slice
import Stencil.Proofs.Segment.Literals
import Stencil.Proofs.Segment.Trim
import Stencil.Proofs.Node.Failure
import Stencil.Proofs.Node.Opener
import Stencil.Proofs.Node.TagBlame
import Stencil.Proofs.Eval.Capture
import Stencil.Proofs.Node.ErrorPlace
import Stencil.Proofs.Eval.Failure
import Stencil.Proofs.Value.JsonText
import Stencil.Proofs.Date.Calendar
import Stencil.Proofs.Date.Reading
import Stencil.Proofs.Date.LocalTime
import Stencil.Proofs.Date.Zone
import Stencil.Proofs.Date.Format
import Stencil.Proofs.Date.Timestamp
import Stencil.Proofs.Expr.Levels
