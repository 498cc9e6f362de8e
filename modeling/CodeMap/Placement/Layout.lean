import CodeMap.Document.Program
import CodeMap.Symbol.Table

/-! # Layout of functions

A function begins at the address of its entry label or, if the table has none, at the address of
its symbol. From there on its blocks follow one another, unless the table has the label of a block:
then the block lies at that address, since the binary may hold padding or data between blocks
of which the document knows nothing. Inside a block every instruction follows the one before.
Addresses are counted modulo `2 ^ 64`.
-/

namespace CodeMap

/-! ## Inside a block -/

/-- Instructions laid out one after another from an address on. -/
def Instruction.layOut (start : UInt64) : List Instruction → List Instruction
  | [] => []
  | i :: rest => { i with address := some start } :: layOut (start + i.size) rest

/-- The block placed at an address, with its instructions. -/
def Block.placeAt (start : UInt64) (b : Block) : Block :=
  { b with address := some start, instructions := Instruction.layOut start b.instructions }

/-! ## Blocks of a function -/

/-- A block in its turn: the address where the blocks before it end, and the address that its own
label has in the table. -/
structure Slot where
  block : Block
  inferred : UInt64
  labeled : Option UInt64
deriving DecidableEq, Repr

namespace Slot

/-- The address of the block: its label decides, if it has one in the table. -/
def start (s : Slot) : UInt64 := s.labeled.getD s.inferred

/-- The address where the block ends. -/
def stop (s : Slot) : UInt64 := s.start + s.block.extent

/-- The block in its place. -/
def placed (s : Slot) : Block := s.block.placeAt s.start

/-- The address that the label has instead of the inferred one. -/
def override? (s : Slot) : Option UInt64 := s.labeled.filter (· != s.inferred)

end Slot

namespace SymbolTable

/-- The slots of blocks of a function, the first of which is inferred to lie at `inferred`. -/
def slots (t : SymbolTable) (function : Name) (inferred : UInt64) : List Block → List Slot
  | [] => []
  | b :: rest =>
    let slot : Slot := ⟨b, inferred, t.get? (b.label function)⟩
    slot :: t.slots function slot.stop rest

/-- The address where a function begins. -/
def entry? (t : SymbolTable) (f : MachineFunction) : Option UInt64 :=
  (t.get? f.entryLabel).or (f.mapsto.bind t.get?)

/-- The slots of a function, if it has a beginning. -/
def slots? (t : SymbolTable) (f : MachineFunction) : Option (List Slot) :=
  (t.entry? f).map fun entry => t.slots f.name entry f.blocks

/-- The table resolves the function: it gives it a beginning. -/
def resolves (t : SymbolTable) (f : MachineFunction) : Bool := (t.entry? f).isSome

end SymbolTable

/-! ## Functions and programs -/

/-- The function in its place, if the table resolves it. -/
def MachineFunction.place? (t : SymbolTable) (f : MachineFunction) : Option MachineFunction :=
  (t.slots? f).map fun slots => { f with blocks := slots.map Slot.placed }

/-- The function in its place; one that the table does not resolve stays as it is. -/
def MachineFunction.place (t : SymbolTable) (f : MachineFunction) : MachineFunction :=
  (f.place? t).getD f

/-- The program with every function in its place. -/
def Program.place (t : SymbolTable) (p : Program) : Program :=
  { p with functions := p.functions.map (MachineFunction.place t) }

@[simp] theorem Program.functions_place (t : SymbolTable) (p : Program) :
    (p.place t).functions = p.functions.map (MachineFunction.place t) := rfl

@[simp] theorem Program.extra_place (t : SymbolTable) (p : Program) :
    (p.place t).extra = p.extra := rfl

end CodeMap
