import EffectTiming.Binary64.Digits
import EffectTiming.Binary64.Numeral
import EffectTiming.Binary64.Parts
import EffectTiming.Binary64.Text
import EffectTiming.Command.Help
import EffectTiming.Command.Job
import EffectTiming.Command.Run
import EffectTiming.Description.Basic
import EffectTiming.Description.Printer
import EffectTiming.Description.Reader
import EffectTiming.Description.Resolve
import EffectTiming.Description.Version
import EffectTiming.Document.Cursor
import EffectTiming.Document.Datum
import EffectTiming.Document.Decode
import EffectTiming.Document.Fault
import EffectTiming.Document.Lexer
import EffectTiming.Document.Lexer.Comment
import EffectTiming.Document.Lexer.Scalar
import EffectTiming.Document.Lexer.Tag
import EffectTiming.Document.Mark
import EffectTiming.Document.Moment
import EffectTiming.Document.Node
import EffectTiming.Document.Printer
import EffectTiming.Document.Reader
import EffectTiming.Document.Token
import EffectTiming.Document.Value
import EffectTiming.Easing.Basic
import EffectTiming.Easing.Bezier
import EffectTiming.Easing.Reader
import EffectTiming.Easing.Staircase
import EffectTiming.Effect
import EffectTiming.Failure
import EffectTiming.Incident
import EffectTiming.Json.Basic
import EffectTiming.Json.Reader
import EffectTiming.Keyword
import EffectTiming.Main
import EffectTiming.Owner
import EffectTiming.Plot.Band
import EffectTiming.Plot.Grid
import EffectTiming.Plot.Picture
import EffectTiming.Plot.Png
import EffectTiming.Plot.Shape
import EffectTiming.Proofs.Binary64.Alike
import EffectTiming.Proofs.Binary64.Decimal
import EffectTiming.Proofs.Binary64.Near
import EffectTiming.Proofs.Binary64.Nearest
import EffectTiming.Proofs.Binary64.Neighbours
import EffectTiming.Proofs.Binary64.Operations
import EffectTiming.Proofs.Binary64.Overflow
import EffectTiming.Proofs.Binary64.Shortest
import EffectTiming.Proofs.Binary64.Text
import EffectTiming.Proofs.Binary64.Unpacked
import EffectTiming.Proofs.Binary64.Value
import EffectTiming.Proofs.Binary64.Whole
import EffectTiming.Proofs.Description.FirstFault
import EffectTiming.Proofs.Easing.Accuracy
import EffectTiming.Proofs.Easing.Confined
import EffectTiming.Proofs.Easing.Curve
import EffectTiming.Proofs.Easing.Finite
import EffectTiming.Proofs.Easing.Newton
import EffectTiming.Proofs.Easing.Reader
import EffectTiming.Proofs.Easing.Same
import EffectTiming.Proofs.Easing.Staircase
import EffectTiming.Proofs.Easing.Stride
import EffectTiming.Proofs.Effect.Current
import EffectTiming.Proofs.Effect.Derived
import EffectTiming.Proofs.Json.RoundTrip
import EffectTiming.Proofs.Json.SameText
import EffectTiming.Proofs.Json.Scalars
import EffectTiming.Proofs.Plot.Band
import EffectTiming.Proofs.Reference.Page
import EffectTiming.Proofs.Sampling.Accepted
import EffectTiming.Proofs.Sampling.Agreement
import EffectTiming.Proofs.Sampling.Flags
import EffectTiming.Proofs.Sampling.Range
import EffectTiming.Proofs.Stage.Changes
import EffectTiming.Proofs.Stage.Coherence
import EffectTiming.Proofs.Stage.Controls
import EffectTiming.Proofs.Stage.Playback
import EffectTiming.Proofs.Text.Parts
import EffectTiming.Proofs.Text.Raw
import EffectTiming.Proofs.Time.Span
import EffectTiming.Proofs.Timing.ActiveTime
import EffectTiming.Proofs.Timing.Composition
import EffectTiming.Proofs.Timing.Defined
import EffectTiming.Proofs.Timing.InEffect
import EffectTiming.Proofs.Timing.Merge
import EffectTiming.Proofs.Timing.Mirrored
import EffectTiming.Proofs.Timing.Phase
import EffectTiming.Proofs.Timing.Reading
import EffectTiming.Proofs.Timing.Record
import EffectTiming.Proofs.Timing.Same
import EffectTiming.Proofs.Timing.TimelineEnd
import EffectTiming.Proofs.Timing.Valid
import EffectTiming.Proofs.Timing.WholeIterations
import EffectTiming.Proofs.Timing.WithinTimeline
import EffectTiming.Proofs.Trace.Capture
import EffectTiming.Proofs.Trace.Diff
import EffectTiming.Proofs.Trace.File
import EffectTiming.Proofs.Trace.Golden
import EffectTiming.Proofs.Tween
import EffectTiming.Reference.Page
import EffectTiming.Report.Samples
import EffectTiming.Report.Timing
import EffectTiming.Sampling.Flags
import EffectTiming.Sampling.Range
import EffectTiming.Sampling.Setup
import EffectTiming.Stage.Basic
import EffectTiming.Stage.Clock
import EffectTiming.Stage.Player
import EffectTiming.Store
import EffectTiming.Text.Blank
import EffectTiming.Text.Bytes
import EffectTiming.Text.Case
import EffectTiming.Text.Column
import EffectTiming.Text.Printable
import EffectTiming.Text.Quoted
import EffectTiming.Text.Raw
import EffectTiming.Text.Split
import EffectTiming.Time.Literal
import EffectTiming.Time.LocalTime
import EffectTiming.Time.Span
import EffectTiming.Timing.Computed
import EffectTiming.Timing.Invariant
import EffectTiming.Timing.Normalize
import EffectTiming.Timing.Params
import EffectTiming.Timing.Record
import EffectTiming.Timing.Summary
import EffectTiming.Timing.Words
import EffectTiming.Trace.Basic
import EffectTiming.Trace.Diff
import EffectTiming.Trace.File
import EffectTiming.Trace.Golden
import EffectTiming.Tween
import EffectTiming.Word
