import CodeMap.Document.Instruction
import CodeMap.Document.Name

/-! # Blocks

A block is a stretch of instructions without a jump into its middle. It has a name within its
function, and the two names together make its label.
-/

namespace CodeMap

/-- A basic block of a function. -/
structure Block where
  name : Name
  /-- The address of its first byte, once the block is placed. -/
  address : Option UInt64
  /-- The instructions in the order of their layout. -/
  instructions : List Instruction
  /-- The other members of the document's object. -/
  extra : Dict Json
deriving DecidableEq, Repr

namespace Block

/-- A block that is not placed, with instructions of the given sizes. -/
def ofSizes (name : UInt64) (sizes : List UInt64) : Block :=
  ⟨.number name, none,
    sizes.zipIdx.map fun s => Instruction.ofSize (UInt32.ofNat s.2) s.1, .empty⟩

/-- The label of the block in a function. -/
def label (function : Name) (b : Block) : String := blockLabel function.text b.name.text

/-- The bytes of the instructions, modulo `2 ^ 64`. -/
def extent (b : Block) : UInt64 := b.instructions.foldr (fun i n => i.size + n) 0

/-- The block and all its instructions have addresses. -/
def isPlaced (b : Block) : Bool :=
  b.address.isSome && b.instructions.all fun i => i.address.isSome

/-! ## Document form -/

/-- The written form of a block. -/
def toJson (b : Block) : Json :=
  .object (("name", b.name.toJson) :: Instruction.addressMember b.address ++
    ("instructions", .array (b.instructions.map Instruction.toJson)) :: b.extra.entries)

/-- The parts of a block read so far. -/
structure Draft where
  name : Option Name
  address : Option (Option UInt64)
  instructions : Option (List Instruction)
  extra : Dict Json

/-- How a block is read. -/
def record : Json.Record Draft Block where
  title := "Block"
  start := ⟨none, none, none, .empty⟩
  fields := [
    ⟨"name", fun d => d.name.isSome,
      fun levels d => (Name.reader levels).map fun n => { d with name := some n }⟩,
    ⟨"address", fun d => d.address.isSome,
      fun _ d => Json.Reader.word64.nullable.map fun a => { d with address := some a }⟩,
    ⟨"instructions", fun d => d.instructions.isSome,
      fun levels d => (Json.Reader.list levels Instruction.record.reader).map
        fun is => { d with instructions := some is }⟩]
  other levels d key := (Json.Reader.value levels).map fun v =>
    { d with extra := d.extra.insert key v.canonical }
  arrays := .refused
  finish d := do
    let name ← Json.required "name" d.name
    return ⟨name, d.address.getD none, d.instructions.getD [], d.extra⟩

end Block

end CodeMap
