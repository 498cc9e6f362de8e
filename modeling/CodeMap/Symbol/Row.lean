import CodeMap.Json.Record
import CodeMap.Text.Lines
import CodeMap.Text.Numbers

/-! # Rows of a symbol dump

A row of a symbol dump has an address of eight hexadecimal digits, nine characters of flags, the
section, a value in hexadecimal digits and the label, with blanks around the value:

    00001040 g     F .text  00000010 main

The columns are cut first and judged afterwards. A line whose columns are not well formed is no
row; headers and empty lines are of this kind.
-/

namespace CodeMap

/-- A symbol: where it lies, in which section, and its label. -/
structure SymbolRow where
  address : UInt64
  sectionName : String
  label : String
deriving DecidableEq, Repr

namespace SymbolRow

/-- The columns of a line and the blanks between the last three. -/
structure Columns where
  address : List Char
  flags : List Char
  sectionName : List Char
  gap : List Char
  value : List Char
  gapBefore : List Char
  label : List Char
deriving DecidableEq, Repr

namespace Columns

/-- Cuts a line: two columns of fixed width, then words and blanks in turn, and the rest. -/
def ofLine (line : List Char) : Columns :=
  let words := line.drop 17
  let behindSection := words.dropWhile (!Text.isBlank ·)
  let behindGap := behindSection.dropWhile Text.isBlank
  let behindValue := behindGap.dropWhile (!Text.isBlank ·)
  { address := line.take 8
    flags := (line.drop 8).take 9
    sectionName := words.takeWhile (!Text.isBlank ·)
    gap := behindSection.takeWhile Text.isBlank
    value := behindGap.takeWhile (!Text.isBlank ·)
    gapBefore := behindValue.takeWhile Text.isBlank
    label := behindValue.dropWhile Text.isBlank }

/-- The columns are those of a row. -/
def wellFormed (c : Columns) : Bool :=
  c.address.length == 8 && c.address.all Text.isHexDigit &&
    c.flags.length == 9 && c.flags.all (· != '\n') &&
    c.sectionName != [] && c.value != [] && c.value.all Text.isHexDigit &&
    c.label != [] && c.label.all (!Text.isBlank ·)

/-- The line that has the columns. -/
def toLine (c : Columns) : List Char :=
  c.address ++ c.flags ++ c.sectionName ++ c.gap ++ c.value ++ c.gapBefore ++ c.label

theorem toLine_ofLine (line : List Char) : (ofLine line).toLine = line := by
  have h : line.take 8 ++ ((line.drop 8).take 9 ++ line.drop 17) = line := by
    rw [show line.drop 17 = (line.drop 8).drop 9 by rw [List.drop_drop],
      List.take_append_drop, List.take_append_drop]
  simp only [toLine, ofLine, List.append_assoc, List.takeWhile_append_dropWhile]
  exact h

end Columns

/-- The characters that may end a line. -/
def isLineEnd (c : Char) : Bool := c == '\r' || c == '\n'

/-- The row that a line is, if it is one. Line ends behind it do not count. -/
def parse? (line : List Char) : Option SymbolRow :=
  let c := Columns.ofLine (Text.dropTrailing isLineEnd line)
  if c.wellFormed then
    some ⟨UInt64.ofNat (Text.hexNumber c.address), String.ofList c.sectionName,
      String.ofList c.label⟩
  else none

/-- The row that a line is, if it is one. -/
def ofLine? (line : String) : Option SymbolRow := parse? line.toList

theorem ofLine?_ofList (line : List Char) : ofLine? (String.ofList line) = parse? line := by
  rw [ofLine?, String.toList_ofList]

/-! ## Written form -/

/-- The written form of a row. -/
def toJson (r : SymbolRow) : Json :=
  .object [("address", .natural r.address), ("section", .string r.sectionName),
    ("label", .string r.label)]

/-- The parts of a row read so far. -/
structure Draft where
  address : Option UInt64
  sectionName : Option String
  label : Option String

/-- How a row is read. -/
def record : Json.Record Draft SymbolRow where
  title := "SymbolRecord"
  start := ⟨none, none, none⟩
  fields := [
    ⟨"address", fun d => d.address.isSome,
      fun _ d => Json.Reader.word64.map fun n => { d with address := some n }⟩,
    ⟨"section", fun d => d.sectionName.isSome,
      fun _ d => Json.Reader.string.map fun s => { d with sectionName := some s }⟩,
    ⟨"label", fun d => d.label.isSome,
      fun _ d => Json.Reader.string.map fun s => { d with label := some s }⟩]
  other _ d _ := Json.Reader.skip d
  arrays := .full
  finish d := do
    let address ← Json.required "address" d.address
    let sectionName ← Json.required "section" d.sectionName
    let label ← Json.required "label" d.label
    return ⟨address, sectionName, label⟩

/-! ## The pattern of a row

The columns of a row as a pattern: every column may hold certain characters, and so many of them.
A pattern may cut a text in several ways. They are listed in the order of a search that first makes
each column as long as it can be and then shortens it where what follows does not fit. -/

/-- A kind of column: the characters that it may hold, and how many of them. -/
structure ColumnKind where
  holds : Char → Bool
  least : Nat
  most : Option Nat

namespace ColumnKind

/-- A column of fixed width. -/
def exactly (width : Nat) (holds : Char → Bool) : ColumnKind := ⟨holds, width, some width⟩

/-- A column of any width but zero. -/
def run (holds : Char → Bool) : ColumnKind := ⟨holds, 1, none⟩

/-- The greatest width that a column has in front of a text. -/
def longest (k : ColumnKind) (text : List Char) : Nat :=
  let width := (text.takeWhile k.holds).length
  (k.most.map (min width)).getD width

/-- The widths that a column may have in front of a text, the greatest one first. -/
def widths (k : ColumnKind) (text : List Char) : List Nat :=
  (List.range' k.least (k.longest text + 1 - k.least)).reverse

/-- The ways to cut a text into columns of the kinds, in the order of the search. -/
def cuts : List ColumnKind → List Char → List (List (List Char))
  | [], [] => [[]]
  | [], _ :: _ => []
  | k :: rest, text =>
    (k.widths text).flatMap fun n => (cuts rest (text.drop n)).map (text.take n :: ·)

end ColumnKind

/-- The columns of a row: eight digits, nine characters of one line, then words and blanks. -/
def pattern : List ColumnKind :=
  [.exactly 8 Text.isHexDigit, .exactly 9 (· != '\n'), .run (!Text.isBlank ·),
    .run Text.isBlank, .run Text.isHexDigit, .run Text.isBlank, .run (!Text.isBlank ·)]

/-- The row that seven columns make. -/
def ofPieces? : List (List Char) → Option SymbolRow
  | [address, _, sectionName, _, _, _, label] =>
    some ⟨UInt64.ofNat (Text.hexNumber address), String.ofList sectionName, String.ofList label⟩
  | _ => none

/-- The row that the search finds in a line. -/
def search? (line : List Char) : Option SymbolRow :=
  (ColumnKind.cuts pattern (Text.dropTrailing isLineEnd line)).head?.bind ofPieces?

end SymbolRow

end CodeMap
