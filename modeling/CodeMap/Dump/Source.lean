import CodeMap.Text.Lines
import CodeMap.Traced

/-! # Sources of a symbol dump

The lines of a dump are given, or were captured in a file, or are printed by a dumper that is
called with the binary. A dumper that ends with a status other than zero has failed, whatever it
has printed. Its output need not be UTF-8 throughout, since the names in a binary need not be.
Any other source answers a binary in its own way, with lines or with a failure.

An operation may have a limit of time, or none. One that is done in time has its own result, even
if the limit is zero; one that is overdue has timed out. Only an operation with a limit can be
overdue.
-/

namespace CodeMap

/-! ## Time limits -/

/-- How long an operation may take. -/
structure TimeLimit where
  milliseconds : Option Nat
deriving DecidableEq, Repr

namespace TimeLimit

/-- A limit in seconds; zero sets none. -/
def ofSeconds (seconds : UInt64) : TimeLimit :=
  ⟨if seconds = 0 then none else some (seconds.toNat * 1000)⟩

/-- The whole seconds of the limit. -/
def seconds? (limit : TimeLimit) : Option Nat := limit.milliseconds.map (· / 1000)

end TimeLimit

/-- How an operation goes under a limit. -/
inductive Operation (limit : TimeLimit) (α : Type) where
  | done (x : Attempted α)
  | overdue (seconds : Nat) (limited : limit.seconds? = some seconds)

namespace Operation

variable {α : Type} {limit : TimeLimit}

/-- Waits for an operation to be done, or until its time is over. -/
def await (name : String) (operation : Operation limit α) : Attempted α :=
  match operation with
  | .done x => ⟨x.result, .operationStarted name limit.seconds? :: x.events⟩
  | .overdue seconds _ =>
    ⟨.error (.timedOut seconds),
      [.operationStarted name limit.seconds?, .operationTimedOut name seconds]⟩

end Operation

/-! ## Sources -/

/-- How a call of a dumper goes. -/
inductive DumperRun (limit : TimeLimit) where
  | notStarted (reason : String)
  /-- The dumper has ended; it has no status if something killed it. -/
  | ended (status : Option Int) (output : Text.Bytes)
  /-- The output could not be read to its end. -/
  | interrupted (reason : String)
  | overdue (seconds : Nat) (limited : limit.seconds? = some seconds)

namespace DumperRun

variable {limit : TimeLimit}

/-- The lines that a dumper prints, and what becomes of it. -/
def operation (command : String) : DumperRun limit → Operation limit (List String)
  | .notStarted reason => .done ⟨.error (.dumperNotStarted command reason), []⟩
  | .interrupted reason => .done ⟨.error (.io reason), []⟩
  | .overdue seconds limited => .overdue seconds limited
  | .ended status output =>
    if status = some 0 then .done ⟨.ok (Text.lines (Text.decodeLossy output)), []⟩
    else .done ⟨.error (.dumperFailed command status), [.dumperFailed command status]⟩

end DumperRun

/-- Where the lines of a dump come from. -/
inductive DumpSource where
  | given (dump : List String)
  | file (path : String) (contents : FileRead)
  | dumper (command : String) (limit : TimeLimit) (run : DumperRun limit)
  | custom (dump : (binary : String) → Attempted (List String))

namespace DumpSource

/-- A dumper whose name holds a NUL cannot be called. -/
def callable (command : String) : Bool := command.toList.all (· != '\x00')

/-- The lines of the dump of a binary. -/
def read (binary : String) : DumpSource → Attempted (List String)
  | .given dump => pure dump
  | .file path contents => do
    Traced.record [.dumpFileOpened path binary]
    let text ← Traced.ofExcept contents.text
    return Text.lines text
  | .dumper command _ run => do
    Traced.record [.dumperStarted command binary]
    let run := if callable command then run
      else .notStarted "nul byte found in provided data"
    let lines ← (run.operation command).await (command ++ " -t")
    Traced.record [.dumperFinished lines.length]
    return lines
  | .custom dump => dump binary

end DumpSource

end CodeMap
