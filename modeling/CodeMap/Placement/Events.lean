import CodeMap.Event
import CodeMap.Placement.Report

/-! # Events of tables and placements

Entering a row is reported if the label had another address before. Placing a block is reported
if its label is not where the blocks before it end. A function that is not resolved is reported
by its descriptor. The counts of a placement are reported on demand.
-/

namespace CodeMap

/-- What a value gives unless it is a certain one. -/
theorem map_filter_bne {α β : Type} [DecidableEq α] (a : α) (f : α → β) (x : Option α) :
    (x.filter (· != a)).map f = x.bind fun b => if b = a then none else some (f b) := by
  cases x with
  | none => rfl
  | some b =>
    rw [Option.filter_some, Option.bind_some]
    by_cases h : b = a <;> simp [h]

namespace SymbolTable

/-- The event of an entry, if it replaces another address. -/
def Entry.event? (e : Entry) : Option Event :=
  e.replaced?.map fun previous => .labelRedefined e.row.label previous e.row.address

/-- The event of an entry compares the address before with the one of the row. -/
theorem Entry.event?_eq (r : SymbolRow) (previous : Option UInt64) :
    Entry.event? ⟨r, previous⟩ = previous.bind fun previous =>
      if previous = r.address then none
      else some (.labelRedefined r.label previous r.address) :=
  map_filter_bne r.address _ previous

/-- The events of rows entered one after another; with `verbose`, also one for every row. -/
def entryEvents (t : SymbolTable) (verbose : Bool) (rows : List SymbolRow) : List Event :=
  (t.entries rows).flatMap fun e =>
    (if verbose then [.addressAdded e.row.label e.row.address] else []) ++ e.event?.toList

end SymbolTable

/-- The event of a block whose label has another address than the inferred one. -/
def Slot.event? (function : Name) (s : Slot) : Option Event :=
  s.override?.map fun labeled =>
    .labelOverrides function.text s.block.name.text s.inferred labeled

/-- The event of a block compares the address of its label with the inferred one. -/
theorem Slot.event?_eq (function : Name) (s : Slot) :
    s.event? function = s.labeled.bind fun labeled =>
      if labeled = s.inferred then none
      else some (.labelOverrides function.text s.block.name.text s.inferred labeled) :=
  map_filter_bne s.inferred _ s.labeled

/-- The events of placing a function that the table resolves. -/
def MachineFunction.overrideEvents (t : SymbolTable) (f : MachineFunction) : List Event :=
  ((t.slots? f).getD []).filterMap (Slot.event? f.name)

/-- The events of placing a function. -/
def MachineFunction.placementEvents (t : SymbolTable) (f : MachineFunction) : List Event :=
  if t.resolves f then f.overrideEvents t else [.functionUnresolved f.descriptor]

/-- The events of placing a program. -/
def Program.placementEvents (t : SymbolTable) (p : Program) : List Event :=
  p.functions.flatMap (MachineFunction.placementEvents t)

/-- The counts of a report as events. -/
def Report.events (r : Report) : List Event :=
  [.functionsCounted r.functions.toNat, .unresolvedCounted r.skipped.length,
    .blocksCounted r.blocks.toNat, .instructionsCounted r.instructions.toNat]

end CodeMap
