import PerfGate.Assessment
import PerfGate.Attribution
import PerfGate.Baseline.Basic
import PerfGate.Baseline.Fault
import PerfGate.Baseline.Store
import PerfGate.Binary64.Arithmetic
import PerfGate.Binary64.Basic
import PerfGate.Binary64.Rounding
import PerfGate.BuildCache
import PerfGate.Configuration
import PerfGate.Decimal.Basic
import PerfGate.Decimal.Layout
import PerfGate.Decimal.Numeral
import PerfGate.Decimal.Shortest
import PerfGate.Error
import PerfGate.FileTree.Basic
import PerfGate.FileTree.Path
import PerfGate.Finding
import PerfGate.Floor
import PerfGate.Grouping
import PerfGate.Json.Number
import PerfGate.Json.Printer
import PerfGate.Json.Value
import PerfGate.Json.Written
import PerfGate.Log
import PerfGate.Main
import PerfGate.Options.Basic
import PerfGate.Options.Reading
import PerfGate.Policy.Basic
import PerfGate.Policy.Document
import PerfGate.Proofs.Assessment.Floor
import PerfGate.Proofs.Assessment.Locality
import PerfGate.Proofs.Assessment.OwnBaseline
import PerfGate.Proofs.Assessment.Rows
import PerfGate.Proofs.Attribution.Selection
import PerfGate.Proofs.Baseline.Complete
import PerfGate.Proofs.Baseline.Entries
import PerfGate.Proofs.Baseline.Acceptance
import PerfGate.Proofs.Baseline.Spellings
import PerfGate.Proofs.Binary64.Between
import PerfGate.Proofs.Binary64.Bounds
import PerfGate.Proofs.Binary64.Error
import PerfGate.Proofs.Binary64.Order
import PerfGate.Proofs.Configuration.Text
import PerfGate.Proofs.Decimal.Spelling
import PerfGate.Proofs.Except
import PerfGate.Proofs.FileTree.Frame
import PerfGate.Proofs.Grouping.Order
import PerfGate.Proofs.Grouping.Refinement
import PerfGate.Proofs.Grouping.Table
import PerfGate.Proofs.Json.Finite
import PerfGate.Proofs.Json.Members
import PerfGate.Proofs.Json.Printable
import PerfGate.Proofs.Json.RoundTrip
import PerfGate.Proofs.Json.Scan
import PerfGate.Proofs.Log.Lines
import PerfGate.Proofs.Log.Noise
import PerfGate.Proofs.Log.Composition
import PerfGate.Proofs.Text.WellFormed
import PerfGate.Proofs.Text.Strictness
import PerfGate.Proofs.Report.ReadBack
import PerfGate.Proofs.Rows.Basic
import PerfGate.Proofs.Run.Outcome
import PerfGate.Proofs.Run.Stages
import PerfGate.Proofs.Stats.Order
import PerfGate.Proofs.Text.Blank
import PerfGate.Proofs.Text.Encoding
import PerfGate.Provenance
import PerfGate.Report
import PerfGate.Run.Judgement
import PerfGate.Run.Outcome
import PerfGate.Run.Stage
import PerfGate.Stats
import PerfGate.Text.Blank
import PerfGate.Text.Encoding
import PerfGate.Text.Quoted
import PerfGate.Text.Unprintable
import PerfGate.Text.Utf16
import PerfGate.Workload
import PerfGate.Proofs.Assessment.Order
import PerfGate.Proofs.Binary64.Defined
import PerfGate.Proofs.Stats.Defined
import PerfGate.Proofs.Stats.Deviation
import PerfGate.Proofs.Stats.Range
import PerfGate.Proofs.Assessment.ExactFloor
import PerfGate.Proofs.Assessment.Loosening
import PerfGate.Proofs.Grouping.Defined
import PerfGate.Proofs.Binary64.Value
import PerfGate.Proofs.Decimal.Nearest
import PerfGate.Proofs.Field.Integer
import PerfGate.Proofs.Grouping.Faults
import PerfGate.Proofs.Json.Literal
import PerfGate.Proofs.Json.ScanError
import PerfGate.Proofs.Field.Number
import PerfGate.Proofs.Json.ScanExact
import PerfGate.Proofs.Finding.Line
import PerfGate.Proofs.BuildCache.Entries
import PerfGate.Proofs.Report.Agreement
