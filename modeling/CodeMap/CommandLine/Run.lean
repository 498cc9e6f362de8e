import CodeMap.CommandLine.Arguments
import CodeMap.CommandLine.Log
import CodeMap.File.Tree
import CodeMap.Session
import CodeMap.Settings

/-! # Runs of the command line

A run reads the settings and the document, extracts the symbols of the binary, and delivers the
document with addresses: to a file or on the standard output. If anything fails, the run ends with
a complaint on the standard error, and nothing is delivered.

The standard output and the standard error are taken to accept all that is printed on them, and no
path to lead to one of them. A standard output that is closed or full ends a run otherwise, and is
not part of the world here.
-/

namespace CodeMap.CommandLine

/-- What a run finds around it. -/
structure World where
  /-- The file at a path. -/
  read : String → FileRead
  /-- Why nothing can be written at a path. -/
  refusal? : String → Option String
  /-- The call of a dumper with a binary, under a limit of time. -/
  dumper : (command binary : String) → (limit : TimeLimit) → DumperRun limit

/-- The world around a tree of files. -/
def World.ofTree (t : FileTree)
    (dumper : (command binary : String) → (limit : TimeLimit) → DumperRun limit) : World :=
  ⟨t.read, t.refusal?, dumper⟩

/-- A failure, and what was being done. -/
structure Complaint where
  context : String
  failure : Failure
deriving DecidableEq, Repr

/-- How a run ends: its exit code, what it prints, and the file that it writes. -/
structure Ending where
  code : UInt32
  stdout : String
  stderr : String
  written : Option (String × String)
deriving DecidableEq, Repr

/-- The files after a run, out of those before it. -/
def Ending.files (ending : Ending) (t : FileTree) : FileTree :=
  match ending.written with
  | none => t
  | some (path, text) => t.write path (Text.encode text)

/-! ## Complaints -/

/-- A text with each line but the first behind an indent. -/
def indentLines (indent : String) (text : String) : String :=
  String.ofList <| text.toList.flatMap fun c => if c = '\n' then c :: indent.toList else [c]

/-- The text of a complaint: the context, then one cause or a numbered list of causes. -/
def Complaint.text (c : Complaint) : String :=
  let causes := match c.failure.cause? with
    | none => "    " ++ indentLines "    " c.failure.message ++ "\n"
    | some cause =>
      "    0: " ++ indentLines "       " c.failure.message ++ "\n" ++
        "    1: " ++ indentLines "       " cause ++ "\n"
  "Error: " ++ c.context ++ "\n\nCaused by:\n" ++ causes

/-! ## Steps of a run -/

namespace Arguments

/-- The settings with what the arguments say in their place. -/
def adjust (a : Arguments) (s : Settings) : Settings where
  dumper := a.dumper.getD s.dumper
  sections := (a.sections.map Sections.parse).getD s.sections
  debug := s.debug || a.debug
  stats := s.stats || a.stats
  timeoutSeconds := a.timeout.getD s.timeoutSeconds

/-- The settings of a run. -/
def settings (a : Arguments) (w : World) : Except Complaint Settings :=
  match a.config with
  | none => .ok (a.adjust .standard)
  | some path =>
    match Settings.ofFile (w.read path) with
    | .ok s => .ok (a.adjust s)
    | .error failure => .error ⟨"loading configuration " ++ path, failure⟩

/-- The source of the dump. -/
def source (a : Arguments) (w : World) (s : Settings) : DumpSource :=
  match a.symbolDump with
  | some path => .file path (w.read path)
  | none =>
    .dumper s.dumper s.timeLimit (w.dumper s.dumper a.binary s.timeLimit)

/-- The document with addresses. -/
def extract (a : Arguments) (w : World) (s : Settings) : Traced Complaint Program := do
  Traced.record [.logStarted a.jsonLog]
  let p ← (Program.ofFile a.input (w.read a.input)).mapError
    (⟨"loading program document " ++ a.input, ·⟩)
  let x ← ((Session.start s).extract (a.source w s) a.binary p).mapError
    (⟨"extracting symbols from " ++ a.binary, ·⟩)
  Traced.record [.finished x.report.functions.toNat x.report.skipped.length]
  return x.program

/-- Delivers a document: the text on the standard output, or the path and the text of a file. -/
def deliver (a : Arguments) (w : World) (p : Program) :
    Except Complaint (String × Option (String × String)) :=
  match a.output with
  | none => .ok (p.fileText, none)
  | some path =>
    match w.refusal? path with
    | none => .ok ("", some (path, p.fileText))
    | some reason => .error ⟨"writing program document " ++ path, .io reason⟩

/-- Runs the program; `environment` holds the filter of the log, if there is one. -/
def run (a : Arguments) (environment : Option String) (w : World) : Ending :=
  match a.settings w with
  | .error complaint => ⟨1, "", complaint.text, none⟩
  | .ok s =>
    let x := a.extract w s
    let log := String.join <|
      (logLines (LogFilter.choose environment s.debug) a.jsonLog x.events).map (· ++ "\n")
    match x.result.bind (a.deliver w) with
    | .ok (stdout, written) => ⟨0, stdout, log, written⟩
    | .error complaint => ⟨1, "", log ++ complaint.text, none⟩

end Arguments

/-! ## Usage -/

/-- How the program is called. -/
def usage : String := "Usage: extract-symbols [OPTIONS] --input <FILE> <PROGRAM.ELF>\n"

/-- What the program does and which options it has. -/
def help : String :=
  "Extract symbol addresses from an ELF file into a program document\n\n" ++ usage ++
  "\nArguments:\n" ++
  "  <PROGRAM.ELF>  Binary whose symbol table is dumped\n" ++
  "\nOptions:\n" ++
  "  -i, --input <FILE>                Program document to annotate\n" ++
  "  -o, --output <FILE>               Where to write the annotated document " ++
  "(stdout if omitted)\n" ++
  "      --config <FILE>               JSON configuration file; command line flags take " ++
  "precedence\n" ++
  "      --objdump-command <FILE>      Path to 'patmos-llvm-objdump'\n" ++
  "      --text-sections <SECTION,..>  List of code sections (=.text)\n" ++
  "      --symbol-dump <FILE>          Read a previously captured `objdump -t` output " ++
  "instead of running objdump\n" ++
  "      --timeout <SECS>              Abort objdump after SECS seconds (0 = unlimited)\n" ++
  "      --debug                       Log every extracted address\n" ++
  "      --stats                       Report statistics\n" ++
  "      --json-log                    Emit logs as JSON\n" ++
  "  -h, --help                        Print help\n"

/-- Runs a command line. -/
def run (args : List String) (environment : Option String) (w : World) : Ending :=
  match Arguments.parse args with
  | .error .usage => ⟨2, "", "error: the arguments are not understood\n\n" ++ usage, none⟩
  | .error .help => ⟨0, help, "", none⟩
  | .ok a => a.run environment w

end CodeMap.CommandLine
