import CodeMap.Dump.Source
import CodeMap.File.Tree
import CodeMap.Placement.Events
import CodeMap.Settings
import CodeMap.Symbol.Counts

/-! # Sessions

A session holds settings, and the table and the counts of all dumps read so far. Reading a dump
either succeeds as a whole or leaves the session as it was; placing a program only looks at the
table.
-/

namespace CodeMap

/-- The time that the dumper has. -/
def Settings.timeLimit (s : Settings) : TimeLimit := .ofSeconds s.timeoutSeconds

/-- Settings with the dumps read under them. -/
structure Session where
  settings : Settings
  table : SymbolTable
  counts : DumpCounts
deriving DecidableEq

namespace Session

/-- A session before the first dump. -/
def start (settings : Settings) : Session := ⟨settings, .empty, .zero⟩

/-! ## Reading dumps -/

/-- The session with the lines of one more dump. -/
def ingest (s : Session) (lines : List String) : Session :=
  { s with
    table := s.table.extend s.settings.sections lines
    counts := s.counts.add (.ofLines s.settings.sections lines) }

/-- The events of reading the lines of a dump. -/
def ingestEvents (s : Session) (lines : List String) : List Event :=
  let counts := DumpCounts.ofLines s.settings.sections lines
  let after := s.ingest lines
  s.table.entryEvents s.settings.debug (SymbolTable.accepted s.settings.sections lines) ++
    .dumpIngested counts.lines counts.rows after.table.size ::
    (if s.settings.stats then [.addressesCounted after.counts.addresses] else [])

/-- Reads a dump from a source. Invalid settings are refused before the source is asked. -/
def analyze (s : Session) (source : DumpSource) (binary : String) : Attempted Session := do
  Traced.ofExcept s.settings.validate
  let lines ← source.read binary
  Traced.record (s.ingestEvents lines)
  return s.ingest lines

/-! ## Placing programs -/

/-- The events of placing a program. -/
def updateEvents (s : Session) (p : Program) : List Event :=
  p.placementEvents s.table ++
    (if s.settings.stats then (Report.ofProgram s.table p).events else [])

/-- The result of reading a dump and placing a program by it. -/
structure Extraction where
  session : Session
  program : Program
  report : Report
deriving DecidableEq

/-- Reads a dump and places a program. -/
def extract (s : Session) (source : DumpSource) (binary : String) (p : Program) :
    Attempted Extraction := do
  let s ← s.analyze source binary
  Traced.record (s.updateEvents p)
  return ⟨s, p.place s.table, Report.ofProgram s.table p⟩

end Session

/-- The program that a document file holds. -/
def Program.ofFile (path : String) (file : FileRead) : Attempted Program := do
  let p ← Traced.ofExcept (file.parse Program.read)
  Traced.record [.documentLoaded path p.functions.length]
  return p

/-- The text of a document file. -/
def Program.fileText (p : Program) : String := p.write ++ "\n"

/-! ## Documents in a tree of files

A document is loaded from a path and stored at one, also at the path that it came from. A run in
place does both: it loads a document, reads a dump in a session of its own, places the program and
stores it where it was. -/

namespace FileTree

/-- The document at a path. -/
def load (t : FileTree) (path : String) : Except Failure Program :=
  (Program.ofFile path (t.read path)).result

/-- The tree with a document stored at a path. -/
def store (t : FileTree) (path : String) (p : Program) : Except Failure FileTree :=
  match t.refusal? path with
  | some reason => .error (.io reason)
  | none => .ok (t.write path (Text.encode p.fileText))

/-- The report of a run in place, and the tree that it leaves. -/
def annotate (t : FileTree) (path : String) (settings : Settings) (source : DumpSource)
    (binary : String) : Except Failure (Report × FileTree) := do
  let p ← t.load path
  let x ← ((Session.start settings).extract source binary p).result
  let after ← t.store path x.program
  return (x.report, after)

end FileTree

end CodeMap
