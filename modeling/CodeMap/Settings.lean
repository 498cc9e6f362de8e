import CodeMap.Failure
import CodeMap.Json.Record
import CodeMap.Text.Lines

/-! # Settings

The settings of a run name the dumper and the sections that hold code. They come from a file, in
which any of them may be left out; the sections can also be listed in one text. Settings under which
no address can be found are invalid.
-/

namespace CodeMap

/-- The settings of a run. -/
structure Settings where
  /-- The command that prints the symbols of a binary. -/
  dumper : String
  /-- The sections whose symbols are addresses of code. -/
  sections : List String
  /-- Every address is reported. -/
  debug : Bool
  /-- Counts are reported. -/
  stats : Bool
  /-- How long the dumper may take; zero sets no limit. -/
  timeoutSeconds : UInt64
deriving DecidableEq, Repr

namespace Settings

/-- The settings that hold where nothing else is said. -/
def standard : Settings := ⟨"patmos-llvm-objdump", [".text"], false, false, 300⟩

instance : Inhabited Settings := ⟨standard⟩

/-- What is wrong with settings. -/
inductive Defect where
  | blankDumper
  | noSection
deriving DecidableEq, Repr

def Defect.text : Defect → String
  | .blankDumper => "objdump command is empty"
  | .noSection => "no text sections configured"

/-- The defect of settings, if they have one. -/
def defect? (s : Settings) : Option Defect :=
  if Text.allBlank s.dumper then some .blankDumper
  else if s.sections.all Text.allBlank then some .noSection
  else none

/-- Refuses settings with a defect. -/
def validate (s : Settings) : Except Failure Unit :=
  match s.defect? with
  | some d => .error (.invalidInput d.text)
  | none => .ok ()

/-! ## Written form -/

/-- The written form of settings. -/
def toJson (s : Settings) : Json :=
  .object [("objdump", .string s.dumper), ("text_sections", .array (s.sections.map .string)),
    ("debug", .bool s.debug), ("stats", .bool s.stats),
    ("timeout_seconds", .natural s.timeoutSeconds)]

/-- The settings read so far. -/
structure Draft where
  dumper : Option String
  sections : Option (List String)
  debug : Option Bool
  stats : Option Bool
  timeoutSeconds : Option UInt64

/-- How settings are read; what is left out is standard. -/
def record : Json.Record Draft Settings where
  title := "ExtractConfig"
  start := ⟨none, none, none, none, none⟩
  fields := [
    ⟨"objdump", fun d => d.dumper.isSome,
      fun _ d => Json.Reader.string.map fun s => { d with dumper := some s }⟩,
    ⟨"text_sections", fun d => d.sections.isSome,
      fun levels d => (Json.Reader.list levels fun _ => Json.Reader.string).map
        fun s => { d with sections := some s }⟩,
    ⟨"debug", fun d => d.debug.isSome,
      fun _ d => Json.Reader.boolean.map fun b => { d with debug := some b }⟩,
    ⟨"stats", fun d => d.stats.isSome,
      fun _ d => Json.Reader.boolean.map fun b => { d with stats := some b }⟩,
    ⟨"timeout_seconds", fun d => d.timeoutSeconds.isSome,
      fun _ d => Json.Reader.word64.map fun n => { d with timeoutSeconds := some n }⟩]
  other _ d _ := Json.Reader.skip d
  arrays := .initial
  finish d := .ok
    ⟨d.dumper.getD standard.dumper, d.sections.getD standard.sections,
      d.debug.getD standard.debug, d.stats.getD standard.stats,
      d.timeoutSeconds.getD standard.timeoutSeconds⟩

/-- The settings that a file holds. -/
def ofFile (file : FileRead) : Except Failure Settings := file.parse record.read

end Settings

/-! ## Section lists

The sections that hold code are named in one text, with commas between the names. Blanks around
a name do not belong to it, and an item of blanks alone names no section. -/

namespace Sections

/-- The names in a section list, in order. -/
def parse (list : String) : List String :=
  (((list.toList.splitOn ',').map Text.trim).filter (· != [])).map String.ofList

end Sections

end CodeMap
