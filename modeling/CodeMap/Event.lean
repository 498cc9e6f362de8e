import CodeMap.Text.Numbers

/-! # Events

What a run reports while it goes on. Events are data: an operation returns them beside its
result, and a log shows those that its filter lets through. An event has a level, the part of the
program that it comes from, a message, and fields with a value each.
-/

namespace CodeMap

/-- How grave an event is, the gravest first. -/
inductive Level where
  | error
  | warn
  | info
  | debug
  | trace
deriving DecidableEq, Repr

namespace Level

def text : Level → String
  | .error => "ERROR"
  | .warn => "WARN"
  | .info => "INFO"
  | .debug => "DEBUG"
  | .trace => "TRACE"

/-- The place in the order from the gravest on. -/
def rank : Level → Nat
  | .error => 1
  | .warn => 2
  | .info => 3
  | .debug => 4
  | .trace => 5

end Level

/-- Something that happened during a run. -/
inductive Event where
  /-- The log has been set up, with lines of JSON or of text. -/
  | logStarted (json : Bool)
  | documentLoaded (path : String) (functions : Nat)
  | dumpFileOpened (dump binary : String)
  | dumperStarted (command binary : String)
  /-- An operation has begun, with a limit in seconds or without one. -/
  | operationStarted (name : String) (seconds : Option Nat)
  | operationTimedOut (name : String) (seconds : Nat)
  /-- A dumper has ended with a status other than zero, or with none. -/
  | dumperFailed (command : String) (status : Option Int)
  | dumperFinished (lines : Nat)
  | addressAdded (label : String) (address : UInt64)
  | labelRedefined (label : String) (previous address : UInt64)
  | dumpIngested (lines rows labels : Nat)
  | addressesCounted (n : Nat)
  | labelOverrides (function block : String) (inferred labeled : UInt64)
  | functionUnresolved (descriptor : String)
  | functionsCounted (n : Nat)
  | unresolvedCounted (n : Nat)
  | blocksCounted (n : Nat)
  | instructionsCounted (n : Nat)
  | finished (annotated skipped : Nat)
deriving DecidableEq, Repr

namespace Event

/-- The value of a field. -/
inductive Value where
  | text (s : String)
  | number (n : Nat)
deriving DecidableEq, Repr

def Value.toText : Value → String
  | .text s => s
  | .number n => n.repr

def level : Event → Level
  | .operationTimedOut .. | .dumperFailed .. => .error
  | .functionUnresolved .. => .warn
  | .addressAdded .. | .addressesCounted _ | .functionsCounted _ | .unresolvedCounted _
  | .blocksCounted _ | .instructionsCounted _ | .finished .. => .info
  | .logStarted _ | .documentLoaded .. | .dumpFileOpened .. | .dumperStarted ..
  | .operationStarted .. | .dumperFinished _ | .labelRedefined .. | .dumpIngested ..
  | .labelOverrides .. => .debug

/-- The part of the program that reports the event. -/
def target : Event → String
  | .logStarted _ => "symaddr::logging"
  | .documentLoaded .. => "symaddr::core::program"
  | .dumpFileOpened .. => "symaddr::io"
  | .dumperStarted .. | .dumperFailed .. | .dumperFinished _ => "symaddr::io::command"
  | .operationStarted .. | .operationTimedOut .. => "symaddr::timeout"
  | .labelRedefined .. => "symaddr::symbols::table"
  | .addressAdded .. | .dumpIngested .. | .addressesCounted _ | .functionsCounted _
  | .unresolvedCounted _ | .blocksCounted _ | .instructionsCounted _ =>
    "symaddr::analysis::extract"
  | .labelOverrides .. | .functionUnresolved _ => "symaddr::analysis::propagate"
  | .finished .. => "extract_symbols"

def message : Event → String
  | .logStarted json => "symaddr tracing initialized" ++ (if json then " (JSON mode)" else "")
  | .documentLoaded .. => "Loaded program document"
  | .dumpFileOpened .. => "Reading captured symbol dump"
  | .dumperStarted .. => "Running symbol dump"
  | .operationStarted name seconds => "Starting operation '" ++ name ++ "' " ++
    match seconds with
      | some n => "with timeout of " ++ n.repr ++ "s"
      | none => "without timeout"
  | .operationTimedOut name seconds =>
    "Operation '" ++ name ++ "' timed out after " ++ seconds.repr ++ "s"
  | .dumperFailed .. => "Symbol dump command failed"
  | .dumperFinished _ => "Symbol dump finished"
  | .addressAdded label address =>
    "Adding address for label " ++ label ++ ": " ++ address.toNat.repr
  | .labelRedefined .. => "Label redefined, keeping later address"
  | .dumpIngested .. => "Ingested symbol dump"
  | .addressesCounted n => "number of extracted addresses: " ++ n.repr
  | .labelOverrides .. => "Block label overrides inferred address"
  | .functionUnresolved descriptor => "No symbol for machine function " ++ descriptor
  | .functionsCounted n => "number of annotated functions: " ++ n.repr
  | .unresolvedCounted n => "number of functions without symbol: " ++ n.repr
  | .blocksCounted n => "number of annotated blocks: " ++ n.repr
  | .instructionsCounted n => "number of annotated instructions: " ++ n.repr
  | .finished .. => "Symbol addresses extracted"

/-- The text of a dumper's status. -/
def statusText : Option Int → String
  | some n => "Some(" ++ n.repr ++ ")"
  | none => "None"

def fields : Event → List (String × Value)
  | .documentLoaded path functions =>
    [("path", .text path), ("functions", .number functions)]
  | .dumpFileOpened dump binary => [("dump", .text dump), ("binary", .text binary)]
  | .dumperStarted command binary => [("command", .text command), ("binary", .text binary)]
  | .dumperFailed command status =>
    [("command", .text command), ("status", .text (statusText status))]
  | .dumperFinished lines => [("lines", .number lines)]
  | .labelRedefined label previous address =>
    [("label", .text label), ("previous", .text (Text.hexText previous)),
      ("address", .text (Text.hexText address))]
  | .dumpIngested lines rows labels =>
    [("lines", .number lines), ("records", .number rows), ("labels", .number labels)]
  | .labelOverrides function block inferred labeled =>
    [("function", .text function), ("block", .text block),
      ("inferred", .text (Text.hexText inferred)), ("labeled", .text (Text.hexText labeled))]
  | .finished annotated skipped =>
    [("annotated", .number annotated), ("skipped", .number skipped)]
  | .logStarted _ | .operationStarted .. | .operationTimedOut .. | .addressAdded ..
  | .addressesCounted _ | .functionUnresolved _ | .functionsCounted _ | .unresolvedCounted _
  | .blocksCounted _ | .instructionsCounted _ => []

end Event

end CodeMap
