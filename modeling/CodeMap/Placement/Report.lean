import CodeMap.Placement.Layout

/-! # Reports of a placement

What a placement did, counted: functions, blocks, blocks whose label gave the address, and
instructions; and the functions that the table did not resolve, by their descriptors. A report is
also read from a document and taken together with others, so its counts are words of 64 bits that
add modulo `2 ^ 64`.
-/

namespace CodeMap

/-- What was placed and what was not. -/
structure Report where
  functions : UInt64
  skipped : List String
  blocks : UInt64
  labeledBlocks : UInt64
  instructions : UInt64
deriving DecidableEq, Repr

namespace Report

/-- Nothing placed, nothing skipped. -/
def zero : Report := ⟨0, [], 0, 0, 0⟩

/-- Two reports together. -/
def merge (a b : Report) : Report :=
  ⟨a.functions + b.functions, a.skipped ++ b.skipped, a.blocks + b.blocks,
    a.labeledBlocks + b.labeledBlocks, a.instructions + b.instructions⟩

@[simp] theorem zero_merge (r : Report) : zero.merge r = r := by
  simp [merge, zero]

@[simp] theorem merge_zero (r : Report) : r.merge zero = r := by
  simp [merge, zero]

theorem merge_assoc (a b c : Report) : (a.merge b).merge c = a.merge (b.merge c) := by
  simp [merge, UInt64.add_assoc]

/-- The report of one function in its slots. -/
def ofSlots (slots : List Slot) : Report where
  functions := 1
  skipped := []
  blocks := UInt64.ofNat slots.length
  labeledBlocks := UInt64.ofNat (slots.countP fun s => s.labeled.isSome)
  instructions := slots.foldr (fun s n => UInt64.ofNat s.block.instructions.length + n) 0

/-- The report of one function that a table resolves. -/
def ofFunction? (t : SymbolTable) (f : MachineFunction) : Option Report :=
  (t.slots? f).map ofSlots

/-- The report of one function. -/
def ofFunction (t : SymbolTable) (f : MachineFunction) : Report :=
  (ofFunction? t f).getD { zero with skipped := [f.descriptor] }

/-- The report of several functions. -/
def ofFunctions (t : SymbolTable) (fs : List MachineFunction) : Report :=
  fs.foldr (fun f r => (ofFunction t f).merge r) zero

/-- The report of a program. -/
def ofProgram (t : SymbolTable) (p : Program) : Report := ofFunctions t p.functions

/-! ## Written form -/

/-- The written form of a report. -/
def toJson (r : Report) : Json :=
  .object [("functions_annotated", .count r.functions.toNat),
    ("functions_skipped", .array (r.skipped.map .string)),
    ("blocks_annotated", .count r.blocks.toNat),
    ("blocks_relabeled", .count r.labeledBlocks.toNat),
    ("instructions_annotated", .count r.instructions.toNat)]

/-- The parts of a report read so far. -/
structure Draft where
  functions : Option UInt64
  skipped : Option (List String)
  blocks : Option UInt64
  labeledBlocks : Option UInt64
  instructions : Option UInt64

/-- A count of a report. -/
def count : Json.Reader UInt64 := Json.Reader.count.map UInt64.ofNat

/-- How a report is read. -/
def record : Json.Record Draft Report where
  title := "PropagationReport"
  start := ⟨none, none, none, none, none⟩
  fields := [
    ⟨"functions_annotated", fun d => d.functions.isSome,
      fun _ d => count.map fun n => { d with functions := some n }⟩,
    ⟨"functions_skipped", fun d => d.skipped.isSome,
      fun levels d => (Json.Reader.list levels fun _ => Json.Reader.string).map
        fun s => { d with skipped := some s }⟩,
    ⟨"blocks_annotated", fun d => d.blocks.isSome,
      fun _ d => count.map fun n => { d with blocks := some n }⟩,
    ⟨"blocks_relabeled", fun d => d.labeledBlocks.isSome,
      fun _ d => count.map fun n => { d with labeledBlocks := some n }⟩,
    ⟨"instructions_annotated", fun d => d.instructions.isSome,
      fun _ d => count.map fun n => { d with instructions := some n }⟩]
  other _ d _ := Json.Reader.skip d
  arrays := .full
  finish d := do
    let functions ← Json.required "functions_annotated" d.functions
    let skipped ← Json.required "functions_skipped" d.skipped
    let blocks ← Json.required "blocks_annotated" d.blocks
    let labeledBlocks ← Json.required "blocks_relabeled" d.labeledBlocks
    let instructions ← Json.required "instructions_annotated" d.instructions
    return ⟨functions, skipped, blocks, labeledBlocks, instructions⟩

end Report

end CodeMap
