import CodeMap.Document.MachineFunction

/-! # Program documents

A program document is a JSON object. Its machine functions have a meaning here, down to the sizes
of their instructions; everything else in it is carried along unchanged.
-/

namespace CodeMap

/-- A program with its machine functions. -/
structure Program where
  /-- The functions in the order of the document. -/
  functions : List MachineFunction
  /-- The other members of the document's object. -/
  extra : Dict Json
deriving DecidableEq, Repr

namespace Program

/-- The program without functions. -/
def empty : Program := ⟨[], .empty⟩

instance : Inhabited Program := ⟨empty⟩

/-- The written form of a program. -/
def toJson (p : Program) : Json :=
  .object (("machine-functions", .array (p.functions.map MachineFunction.toJson)) ::
    p.extra.entries)

/-- The text of a program document. -/
def write (p : Program) : String := p.toJson.pretty

/-- The parts of a program read so far. -/
structure Draft where
  functions : Option (List MachineFunction)
  extra : Dict Json

/-- How a program is read. -/
def record : Json.Record Draft Program where
  title := "Program"
  start := ⟨none, .empty⟩
  fields := [
    ⟨"machine-functions", fun d => d.functions.isSome,
      fun levels d => (Json.Reader.list levels MachineFunction.record.reader).map
        fun fs => { d with functions := some fs }⟩]
  other levels d key := (Json.Reader.value levels).map fun v =>
    { d with extra := d.extra.insert key v.canonical }
  arrays := .refused
  finish d := .ok ⟨d.functions.getD [], d.extra⟩

/-- The program that the text of a document holds. -/
def read (text : String) : Except Json.Refusal Program := record.read text

end Program

end CodeMap
