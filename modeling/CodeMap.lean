import CodeMap.Binary64.Basic
import CodeMap.Binary64.Shortest
import CodeMap.CommandLine.Arguments
import CodeMap.CommandLine.Log
import CodeMap.CommandLine.Run
import CodeMap.CommandLine.System
import CodeMap.Dict
import CodeMap.Document.Block
import CodeMap.Document.Instruction
import CodeMap.Document.MachineFunction
import CodeMap.Document.Name
import CodeMap.Document.Program
import CodeMap.Dump.Source
import CodeMap.Event
import CodeMap.Failure
import CodeMap.File.Tree
import CodeMap.Json.Basic
import CodeMap.Json.Fault
import CodeMap.Json.Printer
import CodeMap.Json.Reader.Basic
import CodeMap.Json.Reader.Bracket
import CodeMap.Json.Reader.Number
import CodeMap.Json.Reader.Scalar
import CodeMap.Json.Reader.Skip
import CodeMap.Json.Reader.Text
import CodeMap.Json.Record
import CodeMap.Main
import CodeMap.Pattern
import CodeMap.Pattern.Brackets
import CodeMap.Pattern.Escape
import CodeMap.Placement.Events
import CodeMap.Placement.Layout
import CodeMap.Placement.Report
import CodeMap.Placement.Walk
import CodeMap.Proofs.CommandLine.AllOrNothing
import CodeMap.Proofs.CommandLine.Diagnostics
import CodeMap.Proofs.CommandLine.Flags
import CodeMap.Proofs.CommandLine.Outcome
import CodeMap.Proofs.Document.Alike
import CodeMap.Proofs.Document.Annotation
import CodeMap.Proofs.Document.Decoding
import CodeMap.Proofs.Document.Extras
import CodeMap.Proofs.Document.Label
import CodeMap.Proofs.Document.Meaning
import CodeMap.Proofs.Document.RoundTrip
import CodeMap.Proofs.Document.Schema
import CodeMap.Proofs.Document.StoreLoad
import CodeMap.Proofs.Document.Written
import CodeMap.Proofs.Dump.Damage
import CodeMap.Proofs.Dump.Source
import CodeMap.Proofs.File.Writing
import CodeMap.Proofs.InPlace
import CodeMap.Proofs.Json.Acceptance
import CodeMap.Proofs.Json.Canonical
import CodeMap.Proofs.Json.Decoding
import CodeMap.Proofs.Json.Exactness
import CodeMap.Proofs.Json.Forms
import CodeMap.Proofs.Json.Grammar
import CodeMap.Proofs.Json.Members
import CodeMap.Proofs.Json.RecordTexts
import CodeMap.Proofs.Json.Records
import CodeMap.Proofs.Json.Skipping
import CodeMap.Proofs.Json.Spellings
import CodeMap.Proofs.Json.Tokens
import CodeMap.Proofs.Json.Values
import CodeMap.Proofs.Placement.Account
import CodeMap.Proofs.Placement.AddressLaw
import CodeMap.Proofs.Placement.Contiguous
import CodeMap.Proofs.Placement.Dependence
import CodeMap.Proofs.Placement.MoreSections
import CodeMap.Proofs.Placement.OneByOne
import CodeMap.Proofs.Placement.Overrides
import CodeMap.Proofs.Placement.Passes
import CodeMap.Proofs.Placement.Segment
import CodeMap.Proofs.Placement.Tiling
import CodeMap.Proofs.Placement.Unplaced
import CodeMap.Proofs.Placement.Walk
import CodeMap.Proofs.Session.Atomicity
import CodeMap.Proofs.Session.CapturedDump
import CodeMap.Proofs.Session.Diagnostics
import CodeMap.Proofs.Session.HistoryIndependence
import CodeMap.Proofs.Session.Invariant
import CodeMap.Proofs.Session.Rerun
import CodeMap.Proofs.Session.Steps
import CodeMap.Proofs.Session.UsableSections
import CodeMap.Proofs.Settings
import CodeMap.Proofs.Symbol.Coverage
import CodeMap.Proofs.Symbol.Ingestion
import CodeMap.Proofs.Symbol.LastRows
import CodeMap.Proofs.Symbol.LineEnds
import CodeMap.Proofs.Symbol.LongRows
import CodeMap.Proofs.Symbol.Redefinition
import CodeMap.Proofs.Symbol.RowColumns
import CodeMap.Proofs.Symbol.SectionLists
import CodeMap.Proofs.Symbol.WrittenDump
import CodeMap.Proofs.Text.Damage
import CodeMap.Proofs.Text.Encoding
import CodeMap.Proofs.Text.Hex
import CodeMap.Proofs.Text.Pieces
import CodeMap.Proofs.Text.Utf8
import CodeMap.Session
import CodeMap.Session.History
import CodeMap.Session.Process
import CodeMap.Settings
import CodeMap.Symbol.Counts
import CodeMap.Symbol.Dump
import CodeMap.Symbol.Reading
import CodeMap.Symbol.Row
import CodeMap.Symbol.Table
import CodeMap.Text.Alphanumeric
import CodeMap.Text.Lines
import CodeMap.Text.Numbers
import CodeMap.Text.Quoted
import CodeMap.Text.Utf8
import CodeMap.Traced
