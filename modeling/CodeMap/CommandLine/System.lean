import CodeMap.CommandLine.Run

/-! # Runs in place

A run is carried out call by call on a system that every call may change. A file is read when it is
its turn, so it is read as it is then; what is printed and what is written stays so when a later
call fails, and nothing is put back. Whether a run that fails leaves a trace depends on the order
of its calls alone. Writing a file is one call, which either writes all of it or fails. Printing is
one call as well, and never fails: the standard output accepts all that is printed on it.
-/

namespace CodeMap.CommandLine

/-- A system at work: its files, and all that has been printed so far. -/
structure System where
  files : FileTree
  stdout : String
  stderr : String
deriving DecidableEq, Repr

/-- A call to the system. If it fails, the system stays as the call has left it. -/
abbrev Call (α : Type) := ExceptT Complaint (StateM System) α

/-- The text of a log. -/
def logText (filter : LogFilter) (json : Bool) (events : List Event) : String :=
  String.join ((logLines filter json events).map (· ++ "\n"))

namespace System

/-- Prints on the standard output. -/
def print (m : System) (text : String) : System := { m with stdout := m.stdout ++ text }

/-- Prints on the standard error. -/
def printError (m : System) (text : String) : System := { m with stderr := m.stderr ++ text }

end System

namespace Call

variable {α : Type} (around : FileTree → World)

/-- Looks at the world around the files as they are now. -/
def look : Call World := do
  return around (← get).files

/-- Carries out a traced computation. The lines of its log are printed even if it fails. -/
def trace (filter : LogFilter) (json : Bool) (x : Traced Complaint α) : Call α := do
  modify (·.printError (logText filter json x.events))
  ExceptT.mk (pure x.result)

/-- Writes a document, unless it is refused. -/
def write (path text : String) : Call Unit := do
  match (← look around).refusal? path with
  | some reason => throw ⟨"writing program document " ++ path, .io reason⟩
  | none => modify fun m => { m with files := m.files.write path (Text.encode text) }

end Call

namespace Arguments

variable (a : Arguments) (around : FileTree → World)

/-- Reads the settings of the run. -/
def callSettings : Call Settings := do
  let w ← Call.look around
  ExceptT.mk (pure (a.settings w))

/-- Reads the document and the dump, and places the document. -/
def callExtract (s : Settings) (filter : LogFilter) : Call Program := do
  Call.trace filter a.jsonLog (Traced.record [.logStarted a.jsonLog])
  let w ← Call.look around
  let p ← Call.trace filter a.jsonLog <|
    (Program.ofFile a.input (w.read a.input)).mapError (⟨"loading program document " ++ a.input, ·⟩)
  let w ← Call.look around
  let x ← Call.trace filter a.jsonLog <|
    ((Session.start s).extract (a.source w s) a.binary p).mapError
      (⟨"extracting symbols from " ++ a.binary, ·⟩)
  Call.trace filter a.jsonLog <|
    Traced.record [.finished x.report.functions.toNat x.report.skipped.length]
  return x.program

/-- Prints the document or writes it. -/
def callDeliver (p : Program) : Call Unit :=
  match a.output with
  | none => modify (·.print p.fileText)
  | some path => Call.write around path p.fileText

/-- All calls of a run. -/
def calls (environment : Option String) : Call Unit := do
  let s ← a.callSettings around
  let p ← a.callExtract around s (LogFilter.choose environment s.debug)
  a.callDeliver around p

end Arguments

/-- Ends a run with its exit code. A failure is complained of. -/
def close : Except Complaint Unit → StateM System UInt32
  | .ok _ => return 0
  | .error complaint => do
    modify (·.printError complaint.text)
    return 1

/-- Carries out a command line. -/
def carryOut (args : List String) (environment : Option String) (around : FileTree → World) :
    StateM System UInt32 := do
  match Arguments.parse args with
  | .error .usage =>
    modify (·.printError ("error: the arguments are not understood\n\n" ++ usage))
    return 2
  | .error .help =>
    modify (·.print help)
    return 0
  | .ok a => close (← (a.calls around environment).run)

end CodeMap.CommandLine
