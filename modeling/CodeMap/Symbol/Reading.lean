import CodeMap.Event
import CodeMap.Symbol.Counts

/-! # Reading a dump line by line

A dump is read into a table in one pass. Every line is counted; a row is counted as a row; and a row
in one of the sections is reported, entered and counted once more. What becomes of a whole dump is
what the views of it say: its accepted rows, the table with them, and the counts. A row can be
reported by any action (`SymbolTable.extendWith`).
-/

namespace CodeMap

universe u

/-- How far the reading of a dump has come. -/
structure SymbolReading where
  table : SymbolTable
  counts : DumpCounts
  /-- The rows reported so far, in order. -/
  reported : List SymbolRow
deriving DecidableEq

namespace SymbolReading

/-- Nothing read yet into a table. -/
def start (t : SymbolTable) : SymbolReading := ⟨t, .zero, []⟩

/-- Counts one line more, which is the given row or none. -/
def take (sections : List String) (x : SymbolReading) : Option SymbolRow → SymbolReading
  | none => ⟨x.table, x.counts.add ⟨1, 0, 0⟩, x.reported⟩
  | some r =>
    if sections.contains r.sectionName then
      ⟨x.table.insert r.label r.address, x.counts.add ⟨1, 1, 1⟩, x.reported ++ [r]⟩
    else ⟨x.table, x.counts.add ⟨1, 1, 0⟩, x.reported⟩

/-- Takes one line more. -/
def step (sections : List String) (x : SymbolReading) (line : String) : SymbolReading :=
  x.take sections (SymbolRow.ofLine? line)

/-- Reads all lines of a dump. -/
def ofLines (t : SymbolTable) (sections lines : List String) : SymbolReading :=
  lines.foldl (step sections) (start t)

variable (x : SymbolReading) (sections : List String)

/-- What one line does is what a dump of this line does. -/
theorem step_eq (line : String) :
    x.step sections line =
      ⟨x.table.extend sections [line], x.counts.add (.ofLines sections [line]),
        x.reported ++ SymbolTable.accepted sections [line]⟩ := by
  rw [step, SymbolTable.extend, DumpCounts.ofLines, SymbolTable.accepted, SymbolTable.rows,
    List.filterMap_cons]
  cases SymbolRow.ofLine? line with
  | none => exact congrArg (SymbolReading.mk _ _) (List.append_nil _).symm
  | some r =>
    simp only [take, List.filterMap_nil, List.filter_cons, List.filter_nil]
    split
    · rfl
    · exact congrArg (SymbolReading.mk _ _) (List.append_nil _).symm

theorem foldl_step (lines : List String) :
    lines.foldl (step sections) x =
      ⟨x.table.extend sections lines, x.counts.add (.ofLines sections lines),
        x.reported ++ SymbolTable.accepted sections lines⟩ := by
  induction lines generalizing x with
  | nil => exact congrArg (SymbolReading.mk x.table x.counts) (List.append_nil _).symm
  | cons line rest ih =>
    rw [List.foldl_cons, ih, step_eq, ← List.singleton_append (l := rest),
      DumpCounts.ofLines_append, SymbolTable.accepted_append, DumpCounts.add_assoc,
      List.append_assoc]
    simp only [SymbolTable.extend, SymbolTable.accepted_append, SymbolTable.enter_append]

theorem ofLines_eq (t : SymbolTable) (lines : List String) :
    ofLines t sections lines =
      ⟨t.extend sections lines, .ofLines sections lines, SymbolTable.accepted sections lines⟩ := by
  rw [ofLines, foldl_step, start, DumpCounts.zero_add, List.nil_append]

end SymbolReading

/-! ## Any report -/

namespace SymbolTable

variable {m : Type → Type u} [Monad m]

/-- Counts one line more, which is the given row or none. A row in one of the sections is reported
before it is entered. -/
def takeWith (report : SymbolRow → m Unit) (sections : List String) (x : SymbolTable × DumpCounts) :
    Option SymbolRow → m (SymbolTable × DumpCounts)
  | none => pure (x.1, x.2.add ⟨1, 0, 0⟩)
  | some r =>
    if sections.contains r.sectionName then do
      report r
      pure (x.1.insert r.label r.address, x.2.add ⟨1, 1, 1⟩)
    else pure (x.1, x.2.add ⟨1, 1, 0⟩)

/-- Takes one line more. -/
def stepWith (report : SymbolRow → m Unit) (sections : List String) (x : SymbolTable × DumpCounts)
    (line : String) : m (SymbolTable × DumpCounts) :=
  takeWith report sections x (SymbolRow.ofLine? line)

/-- Reads all lines of a dump into a table, with a report of every row that is entered. -/
def extendWith (report : SymbolRow → m Unit) (t : SymbolTable) (sections lines : List String) :
    m (SymbolTable × DumpCounts) :=
  lines.foldlM (stepWith report sections) (t, .zero)

/-- Reads all lines of a dump into a table without a report. -/
def read (t : SymbolTable) (sections lines : List String) : SymbolTable × DumpCounts :=
  (t.extendWith (fun _ => pure ()) sections lines : Id _).run

/-! ## With a log

While a dump is read into a table, events go to a log. An accepted row is reported first, by any
events. Then it is entered, and if its label had another address up to then, this is logged as well. -/

/-- Enters a row. If the label had another address, this is logged. -/
def insertLogged (t : SymbolTable) (r : SymbolRow) : StateM (List Event) SymbolTable := do
  if let some previous := t.get? r.label then
    if previous ≠ r.address then
      modify (· ++ [.labelRedefined r.label previous r.address])
  return t.insert r.label r.address

/-- Counts one line more, which is the given row or none. A row in one of the sections is reported
and then entered. -/
def takeLogged (report : SymbolRow → List Event) (sections : List String)
    (x : SymbolTable × DumpCounts) :
    Option SymbolRow → StateM (List Event) (SymbolTable × DumpCounts)
  | none => return (x.1, x.2.add ⟨1, 0, 0⟩)
  | some r => do
    if sections.contains r.sectionName then
      modify (· ++ report r)
      let t ← x.1.insertLogged r
      return (t, x.2.add ⟨1, 1, 1⟩)
    else
      return (x.1, x.2.add ⟨1, 1, 0⟩)

/-- Takes one line more. -/
def stepLogged (report : SymbolRow → List Event) (sections : List String)
    (x : SymbolTable × DumpCounts) (line : String) :
    StateM (List Event) (SymbolTable × DumpCounts) :=
  takeLogged report sections x (SymbolRow.ofLine? line)

/-- Reads all lines of a dump into a table. -/
def extendLogged (report : SymbolRow → List Event) (t : SymbolTable) (sections lines : List String) :
    StateM (List Event) (SymbolTable × DumpCounts) :=
  lines.foldlM (stepLogged report sections) (t, .zero)

end SymbolTable

end CodeMap
