import CodeMap.CommandLine.Run

/-! # The program

The files that the arguments name are read, the run is computed, and what it ends with is carried
out. No other program is started from here, so a dump has to be captured beforehand.
-/

namespace CodeMap.CommandLine

/-- What the system says of an error. -/
def systemReason : IO.Error → String
  | .alreadyExists _ code details | .otherError code details | .resourceBusy code details
  | .resourceVanished code details | .unsupportedOperation code details
  | .hardwareFault code details | .unsatisfiedConstraints code details
  | .illegalOperation code details | .protocolError code details | .timeExpired code details
  | .interrupted _ code details | .noFileOrDirectory _ code details
  | .invalidArgument _ code details | .permissionDenied _ code details
  | .resourceExhausted _ code details | .inappropriateType _ code details
  | .noSuchThing _ code details => details ++ " (os error " ++ code.toNat.repr ++ ")"
  | .unexpectedEof => "unexpected end of file"
  | .userError message => message

/-- The file at a path. -/
def readFile (path : String) : IO FileRead := do
  try
    let handle ← IO.FS.Handle.mk path .read
    return .ok (← handle.readBinToEnd).toList
  catch e =>
    return .error (systemReason e)

/-- The files that a run may want to read. -/
def Arguments.inputs (a : Arguments) : List String :=
  a.config.toList ++ a.input :: a.symbolDump.toList

/-- The world with these files, where every file can be written and no dumper can be started. -/
def World.ofFiles (files : List (String × FileRead)) : World where
  read path := (files.lookup path).getD (.error "the file has not been read")
  refusal? _ := none
  dumper _ _ _ := .notStarted "no other program is started, use --symbol-dump"

/-- Prints what a run ends with. -/
def Ending.print (ending : Ending) : IO UInt32 := do
  IO.eprint ending.stderr
  IO.print ending.stdout
  return ending.code

end CodeMap.CommandLine

open CodeMap.CommandLine

/-- Runs the program. If its file cannot be written, the run ends as it does in a world that
refuses the file. -/
def main (args : List String) : IO UInt32 := do
  let environment ← IO.getEnv "RUST_LOG"
  let paths := match Arguments.parse args with
    | .ok a => a.inputs
    | .error _ => []
  let files ← paths.mapM fun path => return (path, ← readFile path)
  let world := World.ofFiles files
  let ending := run args environment world
  match ending.written with
  | none => ending.print
  | some (path, text) =>
    try
      IO.FS.writeFile path text
      ending.print
    catch e =>
      (run args environment { world with refusal? := fun _ => some (systemReason e) }).print
