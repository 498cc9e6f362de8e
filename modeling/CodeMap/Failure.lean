import CodeMap.Json.Fault
import CodeMap.Text.Utf8

/-! # Failures

A run that cannot go on fails for one of six reasons. A function that no table resolves is no
failure; it is reported and left as it is.

A file is read as a whole: either it has contents, or there is a reason why it cannot be read.
A text file must hold UTF-8.
-/

namespace CodeMap

/-- Why a run cannot go on. -/
inductive Failure where
  /-- The dumper ended with a status other than zero, or with none. -/
  | dumperFailed (command : String) (status : Option Int)
  | dumperNotStarted (command reason : String)
  | timedOut (seconds : Nat)
  /-- A file could not be read or written. -/
  | io (reason : String)
  /-- A text is not of the form wanted. -/
  | malformed (text : String)
  | invalidInput (text : String)
deriving DecidableEq, Repr

namespace Failure

/-- A text that a reader refuses. -/
def ofRefusal (r : Json.Refusal) : Failure := .malformed r.message

def message : Failure → String
  | .dumperFailed command status =>
    "The objdump command '" ++ command ++ "' exited with status " ++
      match status with
      | some n => n.repr
      | none => "signal"
  | .dumperNotStarted command reason =>
    "Failed to run objdump command '" ++ command ++ "': " ++ reason
  | .timedOut seconds => "Symbol dump timeout after " ++ seconds.repr ++ "s"
  | .io reason => "I/O error: " ++ reason
  | .malformed text => "Serialization error: " ++ text
  | .invalidInput text => "Invalid input: " ++ text

/-- The reason that lies outside the program, if there is one. -/
def cause? : Failure → Option String
  | .dumperNotStarted _ reason | .io reason => some reason
  | .dumperFailed .. | .timedOut _ | .malformed _ | .invalidInput _ => none

end Failure

/-! ## Files that are read -/

/-- What reading a file gives: its contents, or why there are none. -/
abbrev FileRead := Except String Text.Bytes

/-- The text of a file. -/
def FileRead.text (file : FileRead) : Except Failure (List Char) :=
  match file with
  | .error reason => .error (.io reason)
  | .ok bytes =>
    match Text.decode? bytes with
    | some text => .ok text
    | none => .error (.io "stream did not contain valid UTF-8")

/-- A record that the text of a file holds. -/
def FileRead.parse {α : Type} (file : FileRead) (read : String → Except Json.Refusal α) :
    Except Failure α :=
  match file.text with
  | .error failure => .error failure
  | .ok text =>
    match read (String.ofList text) with
    | .ok a => .ok a
    | .error refusal => .error (.ofRefusal refusal)

end CodeMap
