import CodeMap.Placement.Events

/-! # Placing in one walk

A program is placed in one walk over its functions, their blocks and their instructions. At every
instruction the walk has the next address at hand, writes it down and goes on by the size; at a
block whose label the table has, it goes to the address of the label first. It counts what it
passes, and reports what it finds out of place. What it leaves behind is what the views of a
placement say, one by one: `Program.place`, `Report.ofProgram` and `Program.placementEvents`.
-/

namespace CodeMap

/-- How far a walk over the blocks of a function has come. -/
structure Walk where
  /-- The address that comes next. -/
  next : UInt64
  report : Report
  events : List Event

namespace Walk

/-- Before the first block of a function. -/
def start (entry : UInt64) : Walk := ⟨entry, { Report.zero with functions := 1 }, []⟩

/-- Goes over one instruction. -/
def instruction (i : Instruction) : StateM Walk Instruction := do
  let w ← get
  set { w with
    next := w.next + i.size
    report := { w.report with instructions := w.report.instructions + 1 } }
  return { i with address := some w.next }

/-- Goes to the label of a block, if the table has it. It is reported if it is not the next
address. -/
def toLabel (t : SymbolTable) (function : Name) (b : Block) : StateM Walk Unit := do
  if let some labeled := t.get? (b.label function) then
    let w ← get
    set { w with
      next := labeled
      report := { w.report with labeledBlocks := w.report.labeledBlocks + 1 }
      events := if labeled = w.next then w.events
        else w.events ++ [Event.labelOverrides function.text b.name.text w.next labeled] }

/-- Goes over a block from the next address on. -/
def inside (b : Block) : StateM Walk Block := do
  let w ← get
  set { w with report := { w.report with blocks := w.report.blocks + 1 } }
  let instructions ← b.instructions.mapM instruction
  return { b with address := some w.next, instructions }

/-- Goes over one block of a function. -/
def block (t : SymbolTable) (function : Name) (b : Block) : StateM Walk Block := do
  toLabel t function b
  inside b

end Walk

namespace MachineFunction

/-- Goes over a function, if the table resolves it. -/
def walk? (t : SymbolTable) (f : MachineFunction) :
    Option (MachineFunction × Report × List Event) :=
  (t.entry? f).map fun entry =>
    let (blocks, w) := (f.blocks.mapM (Walk.block t f.name)).run (Walk.start entry)
    ({ f with blocks }, w.report, w.events)

/-- Goes over one of several functions. One that the table does not resolve is left as it is. -/
def walk (t : SymbolTable) (f : MachineFunction) :
    StateM (Report × List Event) MachineFunction := do
  match f.walk? t with
  | some (g, report, events) =>
    modify fun x => (x.1.merge report, x.2 ++ events)
    return g
  | none =>
    modify fun x => ({ x.1 with skipped := x.1.skipped ++ [f.descriptor] },
      x.2 ++ [.functionUnresolved f.descriptor])
    return f

end MachineFunction

/-- Goes over a program: what becomes of it, the report and the events. -/
def Program.walk (t : SymbolTable) (p : Program) : Program × Report × List Event :=
  let (functions, x) := (p.functions.mapM (MachineFunction.walk t)).run (Report.zero, [])
  ({ p with functions }, x)

end CodeMap
