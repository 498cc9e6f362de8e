import CodeMap.Symbol.Row

/-! # Dumps as they are written

A dump is written line by line. A row leaves the writer some freedom: its flags and its value, the
blanks around the value, the case of the digits, and the line end. Between the rows there may be any
lines that are no rows, and behind the last line end too.
-/

namespace CodeMap

/-- How a line ends. -/
inductive LineEnd where
  | lineFeed
  | carriageReturn
deriving DecidableEq, Repr

/-- The characters at the end of a line. A carriage return has a line feed behind it. -/
def LineEnd.chars : LineEnd → List Char
  | .lineFeed => ['\n']
  | .carriageReturn => ['\r', '\n']

namespace SymbolRow

/-- The row has an address of eight digits, and its section and its label are words. -/
structure IsWritable (r : SymbolRow) : Prop where
  address : r.address.toNat < UInt32.size
  sectionName : r.sectionName.toList ≠ [] ∧ r.sectionName.toList.all (!Text.isBlank ·)
  label : r.label.toList ≠ [] ∧ r.label.toList.all (!Text.isBlank ·)

/-- What the writer of a row is free to choose. The blanks are spaces and tabs, or any others but
the line feed. -/
structure Style where
  flags : List Char
  gap : List Char
  value : List Char
  gapBefore : List Char
  /-- Which digits of the address are in upper case, from the last one on. -/
  capitals : List Bool
  lineEnd : LineEnd
  flags_fit : flags.length = 9 ∧ flags.all (· != '\n')
  gap_fits : gap ≠ [] ∧ gap.all fun x => Text.isBlank x && x != '\n'
  value_fits : value ≠ [] ∧ value.all Text.isHexDigit
  gapBefore_fits : gapBefore ≠ [] ∧ gapBefore.all fun x => Text.isBlank x && x != '\n'
  capitals_fit : capitals.length = 8

/-- The columns of a row in a style. -/
def columns (r : SymbolRow) (style : Style) : Columns where
  address := Text.hexColumn r.address.toNat style.capitals
  flags := style.flags
  sectionName := r.sectionName.toList
  gap := style.gap
  value := style.value
  gapBefore := style.gapBefore
  label := r.label.toList

end SymbolRow

/-- A dump in writing. -/
inductive SymbolDump where
  /-- What stands behind the last line end. -/
  | rest (text : List Char) (oneLine : '\n' ∉ text) (noRow : SymbolRow.parse? text = none)
  | row (r : SymbolRow) (writable : r.IsWritable) (style : SymbolRow.Style) (more : SymbolDump)
  /-- A line that is no row. -/
  | other (text : List Char) (oneLine : '\n' ∉ text) (noRow : SymbolRow.parse? text = none)
    (lineEnd : LineEnd) (more : SymbolDump)

namespace SymbolDump

/-- The characters of a dump, line after line. -/
def chars : SymbolDump → List Char
  | rest text _ _ => text
  | row r _ style more => (r.columns style).toLine ++ style.lineEnd.chars ++ more.chars
  | other text _ _ lineEnd more => text ++ lineEnd.chars ++ more.chars

/-- The text of a dump. -/
def text (d : SymbolDump) : String := String.ofList d.chars

/-- The rows that were written. -/
def rows : SymbolDump → List SymbolRow
  | rest .. => []
  | row r _ _ more => r :: more.rows
  | other _ _ _ _ more => more.rows

/-- The rows that lie in one of the sections. -/
def rowsIn (d : SymbolDump) (sections : List String) : List SymbolRow :=
  d.rows.filter fun r => sections.contains r.sectionName

end SymbolDump

end CodeMap
