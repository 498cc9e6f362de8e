import CodeMap.Document.Block

/-! # Machine functions

A machine function is a list of blocks under a name of its own, which makes the labels of its
blocks. It may also say which symbol it has in the binary.
-/

namespace CodeMap

/-- A function of a program, down at the level of machine instructions. -/
structure MachineFunction where
  name : Name
  /-- The symbol that the function has in the binary, if it is known. -/
  mapsto : Option String
  /-- The blocks in the order of their layout. -/
  blocks : List Block
  /-- The other members of the document's object. -/
  extra : Dict Json
deriving DecidableEq, Repr

namespace MachineFunction

/-- A function whose document has no members but the given ones. -/
def ofBlocks (name : Name) (mapsto : Option String) (blocks : List Block) : MachineFunction :=
  ⟨name, mapsto, blocks, .empty⟩

/-- The label of the block where the function begins. -/
def entryLabel (f : MachineFunction) : String := blockLabel f.name.text "0"

/-- The name and the symbol, as messages show them. -/
def descriptor (f : MachineFunction) : String := f.name.text ++ "/" ++ f.mapsto.getD ""

/-! ## Document form -/

/-- The member for a symbol, left out if there is none. -/
def symbolMember : Option String → List (String × Json)
  | some symbol => [("mapsto", .string symbol)]
  | none => []

/-- The written form of a function. -/
def toJson (f : MachineFunction) : Json :=
  .object (("name", f.name.toJson) :: symbolMember f.mapsto ++
    ("blocks", .array (f.blocks.map Block.toJson)) :: f.extra.entries)

/-- The parts of a function read so far. -/
structure Draft where
  name : Option Name
  mapsto : Option (Option String)
  blocks : Option (List Block)
  extra : Dict Json

/-- How a function is read. -/
def record : Json.Record Draft MachineFunction where
  title := "MachineFunction"
  start := ⟨none, none, none, .empty⟩
  fields := [
    ⟨"name", fun d => d.name.isSome,
      fun levels d => (Name.reader levels).map fun n => { d with name := some n }⟩,
    ⟨"mapsto", fun d => d.mapsto.isSome,
      fun _ d => Json.Reader.string.nullable.map fun s => { d with mapsto := some s }⟩,
    ⟨"blocks", fun d => d.blocks.isSome,
      fun levels d => (Json.Reader.list levels Block.record.reader).map
        fun bs => { d with blocks := some bs }⟩]
  other levels d key := (Json.Reader.value levels).map fun v =>
    { d with extra := d.extra.insert key v.canonical }
  arrays := .refused
  finish d := do
    let name ← Json.required "name" d.name
    return ⟨name, d.mapsto.getD none, d.blocks.getD [], d.extra⟩

end MachineFunction

end CodeMap
