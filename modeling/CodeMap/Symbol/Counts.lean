import CodeMap.Symbol.Table

/-! # Counts of a dump

How many lines a dump has, how many of them are rows, and how many of these lie in a code section.
A label that occurs twice counts twice.
-/

namespace CodeMap

/-- What was read of one or more dumps. -/
structure DumpCounts where
  lines : Nat
  rows : Nat
  addresses : Nat
deriving DecidableEq, Repr

namespace DumpCounts

/-- Nothing read yet. -/
def zero : DumpCounts := ⟨0, 0, 0⟩

/-- The counts of two readings together. -/
def add (a b : DumpCounts) : DumpCounts :=
  ⟨a.lines + b.lines, a.rows + b.rows, a.addresses + b.addresses⟩

/-- The counts of a dump. -/
def ofLines (sections lines : List String) : DumpCounts :=
  ⟨lines.length, (SymbolTable.rows lines).length,
    (SymbolTable.accepted sections lines).length⟩

@[simp] theorem zero_add (c : DumpCounts) : zero.add c = c := by
  simp [zero, add]

theorem add_assoc (a b c : DumpCounts) : (a.add b).add c = a.add (b.add c) := by
  simp [add, Nat.add_assoc]

theorem ofLines_append (sections lines more : List String) :
    ofLines sections (lines ++ more) =
      (ofLines sections lines).add (ofLines sections more) := by
  simp [ofLines, add, SymbolTable.rows_append, SymbolTable.accepted_append]

/-! ## Written form -/

/-- The written form of counts. -/
def toJson (c : DumpCounts) : Json :=
  .object [("lines_read", .count c.lines), ("records_parsed", .count c.rows),
    ("addresses_extracted", .count c.addresses)]

/-- The parts of counts read so far. -/
structure Draft where
  lines : Option Nat
  rows : Option Nat
  addresses : Option Nat

/-- How counts are read. -/
def record : Json.Record Draft DumpCounts where
  title := "ExtractStats"
  start := ⟨none, none, none⟩
  fields := [
    ⟨"lines_read", fun d => d.lines.isSome,
      fun _ d => Json.Reader.count.map fun n => { d with lines := some n }⟩,
    ⟨"records_parsed", fun d => d.rows.isSome,
      fun _ d => Json.Reader.count.map fun n => { d with rows := some n }⟩,
    ⟨"addresses_extracted", fun d => d.addresses.isSome,
      fun _ d => Json.Reader.count.map fun n => { d with addresses := some n }⟩]
  other _ d _ := Json.Reader.skip d
  arrays := .full
  finish d := do
    let lines ← Json.required "lines_read" d.lines
    let rows ← Json.required "records_parsed" d.rows
    let addresses ← Json.required "addresses_extracted" d.addresses
    return ⟨lines, rows, addresses⟩

end DumpCounts

end CodeMap
