import CodeMap.Proofs.Dump.Source
import CodeMap.Proofs.Symbol.RowColumns
import CodeMap.Proofs.Text.Pieces
import CodeMap.Proofs.Text.Utf8
import CodeMap.Symbol.Dump
import CodeMap.Symbol.Reading

/-! # Dumps written and read

A row that is written in any style is read as the row that it was: its columns are those of the
pattern, and the digits of its address are all there. A line end does not matter, and what lies
behind it is read as if it stood alone, so a dump is read row by row
(`SymbolDump.filterMap_parse?`). The table of a dump is therefore the one of the rows that were
written (`SymbolDump.written_rows_are_read`).
-/

namespace CodeMap

/-! ## One row -/

namespace SymbolRow

variable {r : SymbolRow} {x : Char}

theorem blank_of_mem_gap {gap : List Char} (h : gap.all fun x => Text.isBlank x && x != '\n')
    (hx : x ∈ gap) : Text.isBlank x ∧ x ≠ '\n' := by
  simpa using List.all_eq_true.mp h x hx

theorem not_blank_of_mem_word {word : List Char} (h : word.all (!Text.isBlank ·)) (hx : x ∈ word) :
    ¬Text.isBlank x := by
  simpa using List.all_eq_true.mp h x hx

theorem IsWritable.spells (h : r.IsWritable) (style : Style) :
    (r.columns style).Spells (r.columns style).toLine where
  toLine_eq := rfl
  address := ⟨(Text.length_hexColumn _ _).trans style.capitals_fit,
    fun _ => Text.isHexDigit_of_mem_hexColumn⟩
  flags :=
    ⟨style.flags_fit.1, fun x hx => by simpa using List.all_eq_true.mp style.flags_fit.2 x hx⟩
  sectionName := ⟨h.sectionName.1, fun _ => not_blank_of_mem_word h.sectionName.2⟩
  gap := ⟨style.gap_fits.1, fun _ hx => (blank_of_mem_gap style.gap_fits.2 hx).1⟩
  value := ⟨style.value_fits.1, List.all_eq_true.mp style.value_fits.2⟩
  gapBefore := ⟨style.gapBefore_fits.1, fun _ hx => (blank_of_mem_gap style.gapBefore_fits.2 hx).1⟩
  label := ⟨h.label.1, fun _ => not_blank_of_mem_word h.label.2⟩

/-- Eight digits are enough for the address. -/
theorem IsWritable.row_columns (h : r.IsWritable) (style : Style) : (r.columns style).row = r := by
  have haddress : Text.hexNumber (Text.hexColumn r.address.toNat style.capitals) =
      r.address.toNat := by
    rw [Text.hexNumber_hexColumn, style.capitals_fit]
    exact Nat.mod_eq_of_lt h.address
  simp only [Columns.row, columns, haddress, UInt64.ofNat_toNat, String.ofList_toList]

theorem IsWritable.parse?_columns (h : r.IsWritable) (style : Style) :
    parse? (r.columns style).toLine = some r := by
  refine parse?_eq_some.mpr ⟨r.columns style, ?_, h.row_columns style⟩
  have hdrop : Text.dropTrailing isLineEnd ((r.columns style).toLine ++ []) = _ :=
    (h.spells style).dropTrailing_append nofun
  rw [List.append_nil] at hdrop
  rw [hdrop]
  exact h.spells style

/-- What is read as a row has been written as one. -/
theorem isWritable_of_parse? {line : List Char} (h : parse? line = some r) : r.IsWritable := by
  obtain ⟨c, hc, rfl⟩ := parse?_eq_some.mp h
  have word {cs : List Char} (hcs : cs ≠ [] ∧ ∀ x ∈ cs, ¬Text.isBlank x) :
      (String.ofList cs).toList ≠ [] ∧ (String.ofList cs).toList.all (!Text.isBlank ·) := by
    rw [String.toList_ofList]
    exact ⟨hcs.1, List.all_eq_true.mpr fun x hx => by simpa using hcs.2 x hx⟩
  constructor
  · have hlt := Text.hexNumber_lt c.address
    rw [hc.address.1] at hlt
    rwa [hc.toNat_address]
  · exact word hc.sectionName
  · exact word hc.label

/-- A word and a number have no line feed in them, and nothing else of a row has one. -/
theorem IsWritable.notMem_columns (h : r.IsWritable) (style : Style) :
    '\n' ∉ (r.columns style).toLine := by
  have hblank : Text.isBlank '\n' := rfl
  have hdigit : ¬Text.isHexDigit '\n' := by decide
  have hspells := h.spells style
  simp only [Columns.toLine, List.mem_append, not_or, and_assoc]
  refine ⟨fun hx => ?_, fun hx => ?_, fun hx => ?_, fun hx => ?_, fun hx => ?_, fun hx => ?_,
    fun hx => ?_⟩
  · exact hdigit (hspells.address.2 _ hx)
  · exact hspells.flags.2 _ hx rfl
  · exact hspells.sectionName.2 _ hx hblank
  · exact (blank_of_mem_gap style.gap_fits.2 hx).2 rfl
  · exact hdigit (hspells.value.2 _ hx)
  · exact (blank_of_mem_gap style.gapBefore_fits.2 hx).2 rfl
  · exact hspells.label.2 _ hx hblank

/-- A carriage return at the end of a line does not matter. -/
theorem parse?_dropOne (line : List Char) : parse? (Text.dropOne '\r' line) = parse? line := by
  by_cases hlast : line.getLast? = some '\r'
  · obtain ⟨start, rfl⟩ := List.getLast?_eq_some_iff.mp hlast
    rw [Text.dropOne_concat, parse?_append start (by simp [isLineEnd])]
  · rw [Text.dropOne_of_getLast?_ne hlast]

end SymbolRow

/-! ## Line by line -/

/-- A line is read as if it stood alone, and so is what follows. -/
theorem LineEnd.filterMap_cutLines (e : LineEnd) {line : List Char} (h : '\n' ∉ line)
    (rest : List Char) :
    (Text.cutLines '\n' '\r' (line ++ e.chars ++ rest)).filterMap SymbolRow.parse? =
      (SymbolRow.parse? line).toList ++
        (Text.cutLines '\n' '\r' rest).filterMap SymbolRow.parse? := by
  cases e with
  | lineFeed =>
    rw [chars, List.append_assoc, List.singleton_append, Text.cutLines_append_cons h,
      List.filterMap_cons, SymbolRow.parse?_dropOne]
    cases SymbolRow.parse? line <;> rfl
  | carriageReturn =>
    have hreturn : '\n' ∉ line ++ ['\r'] := by simp [h]
    rw [chars, show line ++ ['\r', '\n'] ++ rest = (line ++ ['\r']) ++ '\n' :: rest by simp,
      Text.cutLines_append_cons hreturn, Text.dropOne_concat, List.filterMap_cons]
    cases SymbolRow.parse? line <;> rfl

namespace SymbolDump

/-- The rows that are read are those that were written. -/
theorem filterMap_parse? (d : SymbolDump) :
    (Text.cutLines '\n' '\r' d.chars).filterMap SymbolRow.parse? = d.rows := by
  induction d with
  | rest text oneLine noRow =>
    rw [chars, rows, Text.cutLines_of_notMem oneLine]
    split
    · rfl
    · rw [List.filterMap_cons, noRow]
      rfl
  | row r writable style more ih =>
    rw [chars, LineEnd.filterMap_cutLines _ (writable.notMem_columns style),
      writable.parse?_columns, ih]
    rfl
  | other text oneLine noRow lineEnd more ih =>
    rw [chars, LineEnd.filterMap_cutLines _ oneLine, noRow, ih]
    rfl

theorem rows_lines (d : SymbolDump) : SymbolTable.rows (Text.lines d.chars) = d.rows := by
  have hparse : SymbolRow.ofLine? ∘ String.ofList = SymbolRow.parse? :=
    funext SymbolRow.ofLine?_ofList
  rw [SymbolTable.rows, Text.lines, List.filterMap_map, hparse, filterMap_parse?]

theorem accepted_lines (d : SymbolDump) (sections : List String) :
    SymbolTable.accepted sections (Text.lines d.chars) = d.rowsIn sections := by
  rw [SymbolTable.accepted, rows_lines, rowsIn]

/-- The lines of a file that holds a dump. -/
theorem result_read (d : SymbolDump) (path binary : String) :
    ((DumpSource.file path (.ok (Text.encode d.text))).read binary).result =
      .ok (Text.lines d.chars) := by
  have hread := DumpSource.result_read_encode path binary d.text
  rwa [text, String.toList_ofList] at hread

end SymbolDump

/-- Rows are entered as the pairs of their labels and addresses. -/
theorem SymbolTable.enter_empty (rows : List SymbolRow) :
    empty.enter rows = ofPairs (rows.map fun r => (r.label, r.address)) := by
  rw [enter, ofPairs, List.foldl_map]

/-- **Written rows are read.** A dump that is written row by row, in whatever style and with any
lines between that are no rows, is read from its file as it was written. Its table is the one of the
labels and addresses of the rows in the sections; and whatever table it is read into, these rows are
reported and entered in their order, and every row that was written is counted. -/
theorem SymbolDump.written_rows_are_read (d : SymbolDump) (sections : List String)
    (path binary : String) :
    ∃ lines, ((DumpSource.file path (.ok (Text.encode d.text))).read binary).result = .ok lines ∧
      SymbolTable.ofLines sections lines =
        .ofPairs ((d.rowsIn sections).map fun r => (r.label, r.address)) ∧
      ∀ t, SymbolReading.ofLines t sections lines =
        ⟨t.enter (d.rowsIn sections),
          ⟨lines.length, d.rows.length, (d.rowsIn sections).length⟩, d.rowsIn sections⟩ := by
  refine ⟨_, d.result_read path binary, ?_, fun t => ?_⟩
  · rw [SymbolTable.ofLines, SymbolTable.extend, d.accepted_lines, SymbolTable.enter_empty]
  · rw [SymbolReading.ofLines_eq, SymbolTable.extend, DumpCounts.ofLines, d.accepted_lines,
      d.rows_lines]

/-- A header with a carriage return, a row of another section in capitals, an empty line, and a row
with spaces for flags. -/
theorem SymbolDump.written_rows_are_read_of_two_styles :
    let text := "SYMBOL TABLE:\r\n0000ABCD g     O .data \tC counter\n\n" ++
      "0000abcd         .text  00 main\r\n"
    ∃ lines, ((DumpSource.file "main.dump" (.ok (Text.encode text))).read "main.elf").result =
        .ok lines ∧
      SymbolTable.ofLines [".text"] lines = .ofPairs [("main", 0xabcd)] ∧
      SymbolReading.ofLines .empty [".text"] lines =
        ⟨SymbolTable.empty.insert "main" 0xabcd, ⟨lines.length, 2, 1⟩,
          [⟨0xabcd, ".text", "main"⟩]⟩ := by
  intro text
  let counter : SymbolRow := ⟨0xabcd, ".data", "counter"⟩
  let main : SymbolRow := ⟨0xabcd, ".text", "main"⟩
  let capitals : SymbolRow.Style := ⟨" g     O ".toList, [' ', '\t'], ['C'], [' '],
    List.replicate 8 true, .lineFeed, by decide, by decide, by decide, by decide, by decide⟩
  let plain : SymbolRow.Style := ⟨List.replicate 9 ' ', [' ', ' '], ['0', '0'], [' '],
    List.replicate 8 false, .carriageReturn, by decide, by decide, by decide, by decide, by decide⟩
  let d : SymbolDump :=
    .other "SYMBOL TABLE:".toList (by decide) (by decide +kernel) .carriageReturn <|
    .row counter (by constructor <;> decide +kernel) capitals <|
    .other [] (by decide) (by decide +kernel) .lineFeed <|
    .row main (by constructor <;> decide +kernel) plain <|
    .rest [] (by decide) (by decide +kernel)
  have htext : d.text = text := by decide +kernel
  have hrows : d.rowsIn [".text"] = [main] := by decide +kernel
  obtain ⟨lines, hread, htable, hreading⟩ :=
    written_rows_are_read d [".text"] "main.dump" "main.elf"
  rw [htext] at hread
  rw [hrows] at htable hreading
  exact ⟨lines, hread, htable, hreading .empty⟩

end CodeMap
