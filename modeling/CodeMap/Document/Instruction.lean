import CodeMap.Json.Record

/-! # Instructions

Of an instruction only its size matters here: it moves the next one on. All members of the
document that have no meaning here are kept in `extra`.
-/

namespace CodeMap

/-- A machine instruction of a block. -/
structure Instruction where
  /-- The position within the block. -/
  index : UInt32
  /-- The size in bytes. -/
  size : UInt64
  /-- The address, once the instruction is placed. -/
  address : Option UInt64
  /-- The other members of the document's object. -/
  extra : Dict Json
deriving DecidableEq, Repr

namespace Instruction

/-- An instruction that is not placed. -/
def ofSize (index : UInt32) (size : UInt64) : Instruction := ⟨index, size, none, .empty⟩

/-- The first address behind the instruction, modulo `2 ^ 64`. -/
def endAddress (i : Instruction) : Option UInt64 := i.address.map (· + i.size)

/-! ## Document form -/

/-- The member for an address, left out while there is none. -/
def addressMember : Option UInt64 → List (String × Json)
  | some address => [("address", .natural address)]
  | none => []

/-- The written form of an instruction. -/
def toJson (i : Instruction) : Json :=
  .object (("index", .natural i.index.toUInt64) :: ("size", .natural i.size) ::
    addressMember i.address ++ i.extra.entries)

/-- The parts of an instruction read so far. -/
structure Draft where
  index : Option UInt32
  size : Option UInt64
  address : Option (Option UInt64)
  extra : Dict Json

/-- How an instruction is read. -/
def record : Json.Record Draft Instruction where
  title := "Instruction"
  start := ⟨none, none, none, .empty⟩
  fields := [
    ⟨"index", fun d => d.index.isSome,
      fun _ d => Json.Reader.word32.map fun n => { d with index := some n }⟩,
    ⟨"size", fun d => d.size.isSome,
      fun _ d => Json.Reader.word64.map fun n => { d with size := some n }⟩,
    ⟨"address", fun d => d.address.isSome,
      fun _ d => Json.Reader.word64.nullable.map fun a => { d with address := some a }⟩]
  other levels d key := (Json.Reader.value levels).map fun v =>
    { d with extra := d.extra.insert key v.canonical }
  arrays := .refused
  finish d := do
    let index ← Json.required "index" d.index
    let size ← Json.required "size" d.size
    return ⟨index, size, d.address.getD none, d.extra⟩

end Instruction

end CodeMap
