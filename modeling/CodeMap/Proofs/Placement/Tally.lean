import CodeMap.Proofs.Placement.Unplaced
import CodeMap.Proofs.Symbol.Coverage
import Mathlib.Algebra.GroupWithZero.Nat

/-! # Counts without bounds

A report counts in words. A tally has the same counts as natural numbers, one function after the
other (`Tally.ofProgram`), and a report holds them modulo `2 ^ 64` (`Report.ofProgram_eq`). No count
is greater than the number of all parts of the program (`Tally.ofProgram_le_parts`). A program in
memory has fewer parts than there are words, and then nothing is lost.
-/

namespace CodeMap

/-! ## Parts -/

/-- The instructions of blocks, counted. -/
def Block.instructionCount (bs : List Block) : Nat := (bs.map fun b => b.instructions.length).sum

/-- The instructions counted in words. -/
theorem Block.ofNat_instructionCount (bs : List Block) :
    UInt64.ofNat (instructionCount bs) =
      bs.foldr (fun b n => UInt64.ofNat b.instructions.length + n) 0 := by
  induction bs with
  | nil => rfl
  | cons b rest ih =>
    rw [List.foldr_cons, ← ih, ← UInt64.ofNat_add, instructionCount, instructionCount, List.map_cons,
      List.sum_cons]

/-- A function, its blocks and their instructions, counted together. -/
def MachineFunction.parts (f : MachineFunction) : Nat :=
  1 + f.blocks.length + Block.instructionCount f.blocks

/-- All the parts of a program. -/
def Program.parts (p : Program) : Nat := (p.functions.map MachineFunction.parts).sum

/-! ## Tallies -/

/-- The counts of a placement as natural numbers. -/
structure Tally where
  functions : Nat
  blocks : Nat
  labeledBlocks : Nat
  instructions : Nat
deriving DecidableEq

namespace Tally

variable {a b c d : Tally} {n m : Nat}

/-- Nothing counted. -/
def zero : Tally := ⟨0, 0, 0, 0⟩

/-- Two tallies together. -/
def add (a b : Tally) : Tally :=
  ⟨a.functions + b.functions, a.blocks + b.blocks, a.labeledBlocks + b.labeledBlocks,
    a.instructions + b.instructions⟩

/-- The tally of one function: it counts with all its blocks and instructions if the table resolves
it. -/
def ofFunction (t : SymbolTable) (f : MachineFunction) : Tally :=
  if t.resolves f then
    ⟨1, f.blocks.length, f.blocks.countP fun b => t.contains (b.label f.name),
      Block.instructionCount f.blocks⟩
  else zero

/-- The tally of several functions. -/
def ofFunctions (t : SymbolTable) (fs : List MachineFunction) : Tally :=
  fs.foldr (fun f c => (ofFunction t f).add c) zero

/-- The tally of a program. -/
def ofProgram (t : SymbolTable) (p : Program) : Tally := ofFunctions t p.functions

/-- No count of the first tally is greater than that of the second one. -/
structure Le (a b : Tally) : Prop where
  functions : a.functions ≤ b.functions
  blocks : a.blocks ≤ b.blocks
  labeledBlocks : a.labeledBlocks ≤ b.labeledBlocks
  instructions : a.instructions ≤ b.instructions

theorem zero_le (a : Tally) : zero.Le a :=
  ⟨Nat.zero_le _, Nat.zero_le _, Nat.zero_le _, Nat.zero_le _⟩

theorem Le.add (hab : a.Le b) (hcd : c.Le d) : (a.add c).Le (b.add d) where
  functions := Nat.add_le_add hab.functions hcd.functions
  blocks := Nat.add_le_add hab.blocks hcd.blocks
  labeledBlocks := Nat.add_le_add hab.labeledBlocks hcd.labeledBlocks
  instructions := Nat.add_le_add hab.instructions hcd.instructions

/-- The tally with every count at `n`. -/
def uniform (n : Nat) : Tally := ⟨n, n, n, n⟩

/-- A function counts no more than its parts. -/
theorem ofFunction_le_parts (t : SymbolTable) (f : MachineFunction) :
    (ofFunction t f).Le (uniform f.parts) := by
  rw [ofFunction]
  split
  · have hlabeled : f.blocks.countP (fun b => t.contains (b.label f.name)) ≤ f.blocks.length :=
      List.countP_le_length
    constructor <;> simp only [uniform, MachineFunction.parts] <;> omega
  · exact zero_le _

theorem ofProgram_le_parts (t : SymbolTable) (p : Program) :
    (ofProgram t p).Le (uniform p.parts) := by
  rw [ofProgram, Program.parts]
  induction p.functions with
  | nil => exact zero_le _
  | cons f rest ih => exact (ofFunction_le_parts t f).add ih

/-! ## Tallies in words -/

/-- The report with the counts of a tally. -/
def report (c : Tally) (skipped : List String) : Report :=
  ⟨.ofNat c.functions, skipped, .ofNat c.blocks, .ofNat c.labeledBlocks, .ofNat c.instructions⟩

theorem report_add (a b : Tally) (skipped more : List String) :
    (a.add b).report (skipped ++ more) = (a.report skipped).merge (b.report more) := by
  simp [report, add, Report.merge]

end Tally

namespace SymbolTable

variable (t : SymbolTable)

/-- The descriptors of the functions that a table does not resolve. -/
def unresolved (fs : List MachineFunction) : List String :=
  (fs.filter (!t.resolves ·)).map MachineFunction.descriptor

theorem unresolved_cons (f : MachineFunction) (rest : List MachineFunction) :
    t.unresolved (f :: rest) =
      (if t.resolves f then [] else [f.descriptor]) ++ t.unresolved rest := by
  rw [unresolved, List.filter_cons]
  cases t.resolves f <;> rfl

/-- A block has a label in the table if the table has its label. -/
theorem countP_slots (function : Name) (inferred : UInt64) (bs : List Block) :
    (t.slots function inferred bs).countP (fun s => s.labeled.isSome) =
      bs.countP fun b => t.contains (b.label function) := by
  induction bs generalizing inferred with
  | nil => rfl
  | cons b rest ih => rw [slots, List.countP_cons, List.countP_cons, ih, contains_eq_isSome]

end SymbolTable

namespace Report

variable (t : SymbolTable)

theorem ofSlots_slots (function : Name) (inferred : UInt64) (bs : List Block) :
    ofSlots (t.slots function inferred bs) =
      Tally.report ⟨1, bs.length, bs.countP fun b => t.contains (b.label function),
        Block.instructionCount bs⟩ [] := by
  have hblocks := t.map_block_slots function inferred bs
  have hinstructions : (t.slots function inferred bs).foldr
      (fun s n => UInt64.ofNat s.block.instructions.length + n) 0 =
        UInt64.ofNat (Block.instructionCount bs) := by
    rw [Block.ofNat_instructionCount, ← List.foldr_map (f := Slot.block)
      (g := fun b n => UInt64.ofNat b.instructions.length + n), hblocks]
  rw [ofSlots, t.length_slots, hinstructions, t.countP_slots]
  rfl

/-- The report of a function has its tally. -/
theorem ofFunction_eq (f : MachineFunction) :
    ofFunction t f =
      (Tally.ofFunction t f).report (if t.resolves f then [] else [f.descriptor]) := by
  rw [ofFunction, ofFunction?, Tally.ofFunction, SymbolTable.slots?, SymbolTable.resolves]
  cases t.entry? f with
  | none => rfl
  | some entry => exact ofSlots_slots t f.name entry f.blocks

/-- The report of a program has its tally in words, and names the functions that are not
resolved. -/
theorem ofProgram_eq (p : Program) :
    ofProgram t p = (Tally.ofProgram t p).report (t.unresolved p.functions) := by
  rw [ofProgram, ofFunctions, Tally.ofProgram, Tally.ofFunctions]
  induction p.functions with
  | nil => rfl
  | cons f rest ih =>
    rw [List.foldr_cons, List.foldr_cons, ih, ofFunction_eq, t.unresolved_cons, Tally.report_add]

end Report

end CodeMap
