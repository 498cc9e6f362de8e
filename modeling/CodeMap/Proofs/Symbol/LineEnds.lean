import CodeMap.Proofs.Symbol.Ingestion
import CodeMap.Proofs.Symbol.WrittenDump

/-! # Line ends

A text with carriage returns put in front of its line feeds has as many lines as before. One of the
carriage returns belongs to the line feed, and the others are left at the end of the line, where they
do not matter to a row. Those inside a line stay where they are. So a dump is read alike, however its
lines end (`SymbolTable.line_ends_do_not_matter`).
-/

namespace CodeMap

universe u

namespace Text

variable {text more piece rest added : List Char}

/-- The second text is the first one with carriage returns put in front of line feeds, any number of
them in front of each. -/
inductive AddsReturns : List Char → List Char → Prop where
  | nil : AddsReturns [] []
  | keep (x : Char) {text more : List Char} (h : AddsReturns text more) :
    AddsReturns (x :: text) (x :: more)
  | lineFeed (n : Nat) {text more : List Char} (h : AddsReturns text more) :
    AddsReturns ('\n' :: text) (List.replicate n '\r' ++ '\n' :: more)

namespace AddsReturns

theorem refl (text : List Char) : AddsReturns text text := by
  induction text with
  | nil => exact .nil
  | cons x rest ih => exact .keep x ih

theorem append (h : AddsReturns text more) (hrest : AddsReturns rest added) :
    AddsReturns (text ++ rest) (more ++ added) := by
  induction h with
  | nil => exact hrest
  | keep x _ ih => exact .keep x ih
  | lineFeed n _ ih =>
    rw [List.append_assoc]
    exact .lineFeed n ih

/-- Nothing is added to a text in one line. -/
theorem eq_of_notMem (h : AddsReturns text more) (hline : '\n' ∉ text) : more = text := by
  induction h with
  | nil => rfl
  | keep x _ ih => rw [ih fun hmem => hline (.tail _ hmem)]
  | lineFeed => exact absurd (.head _) hline

/-- The first line is the same up to carriage returns at its end. -/
theorem exists_of_append_cons (hpiece : '\n' ∉ piece) (h : AddsReturns (piece ++ '\n' :: rest) more) :
    ∃ n added, more = (piece ++ List.replicate n '\r') ++ '\n' :: added ∧ AddsReturns rest added := by
  induction piece generalizing more with
  | nil =>
    cases h with
    | keep _ h => exact ⟨0, _, rfl, h⟩
    | lineFeed n h => exact ⟨n, _, rfl, h⟩
  | cons x piece ih =>
    cases h with
    | keep _ h =>
      obtain ⟨n, added, rfl, hrest⟩ := ih (fun hmem => hpiece (.tail _ hmem)) h
      exact ⟨n, added, rfl, hrest⟩
    | lineFeed => exact absurd (.head _) hpiece

/-- Line by line there are the same rows. -/
theorem map_parse?_cutLines (h : AddsReturns text more) :
    (cutLines '\n' '\r' more).map SymbolRow.parse? =
      (cutLines '\n' '\r' text).map SymbolRow.parse? := by
  induction text using line_induction '\n' generalizing more with
  | last text hline => rw [h.eq_of_notMem hline]
  | line piece rest hpiece ih =>
    obtain ⟨n, added, rfl, hrest⟩ := h.exists_of_append_cons hpiece
    have hreturns : ∀ x ∈ List.replicate n '\r', SymbolRow.isLineEnd x := fun x hx => by
      rw [List.eq_of_mem_replicate hx]
      rfl
    have hlonger : '\n' ∉ piece ++ List.replicate n '\r' := by simp [hpiece]
    rw [cutLines_append_cons hlonger, cutLines_append_cons hpiece, List.map_cons, List.map_cons,
      ih hrest, SymbolRow.parse?_dropOne, SymbolRow.parse?_dropOne,
      SymbolRow.parse?_append piece hreturns]

theorem map_ofLine?_lines (h : AddsReturns text more) :
    (lines more).map SymbolRow.ofLine? = (lines text).map SymbolRow.ofLine? := by
  have hparse : SymbolRow.ofLine? ∘ String.ofList = SymbolRow.parse? :=
    funext SymbolRow.ofLine?_ofList
  rw [lines, lines, List.map_map, List.map_map, hparse, h.map_parse?_cutLines]

end AddsReturns

end Text

/-! ## Rows line by line -/

section

variable {lines more : List String} (h : more.map SymbolRow.ofLine? = lines.map SymbolRow.ofLine?)
include h

/-- Of a line nothing matters but the row that it is. -/
theorem SymbolReading.ofLines_congr (t : SymbolTable) (sections : List String) :
    ofLines t sections more = ofLines t sections lines := by
  have hread (lines : List String) : ofLines t sections lines =
      (lines.map SymbolRow.ofLine?).foldl (take sections) (start t) := by
    rw [List.foldl_map]
    rfl
  rw [hread, h, ← hread]

theorem SymbolTable.extendWith_congr {m : Type → Type u} [Monad m] (report : SymbolRow → m Unit)
    (t : SymbolTable) (sections : List String) :
    t.extendWith report sections more = t.extendWith report sections lines := by
  have hread (lines : List String) : t.extendWith report sections lines =
      (lines.map SymbolRow.ofLine?).foldlM (takeWith report sections) (t, .zero) := by
    rw [List.foldlM_map]
    rfl
  rw [hread, h, ← hread]

end

/-- **Line ends do not matter.** If carriage returns are put in front of the line feeds of a dump, as
many as one likes in front of each, the file still has a row where it had one, and the same row. So
the same rows are reported and entered in the same order, whatever table the dump is read into, and
the same is counted. -/
theorem SymbolTable.line_ends_do_not_matter {text more : String}
    (h : Text.AddsReturns text.toList more.toList) (path binary : String) :
    ∃ lines others,
      ((DumpSource.file path (.ok (Text.encode text))).read binary).result = .ok lines ∧
        ((DumpSource.file path (.ok (Text.encode more))).read binary).result = .ok others ∧
        others.map SymbolRow.ofLine? = lines.map SymbolRow.ofLine? ∧
        ∀ (t : SymbolTable) (sections : List String),
          SymbolReading.ofLines t sections others = SymbolReading.ofLines t sections lines ∧
            ∀ {m : Type → Type u} [Monad m] (report : SymbolRow → m Unit),
              t.extendWith report sections others = t.extendWith report sections lines := by
  have hrows := h.map_ofLine?_lines
  refine ⟨_, _, DumpSource.result_read_encode path binary text,
    DumpSource.result_read_encode path binary more, hrows, fun t sections => ?_⟩
  exact ⟨SymbolReading.ofLines_congr hrows t sections,
    fun report => SymbolTable.extendWith_congr hrows report t sections⟩

/-- A row that has a carriage return at its end anyway, one with carriage returns for blanks, a line
without any character, and a last row that no line feed ends. -/
theorem SymbolTable.line_ends_do_not_matter_of_four_lines :
    let main := "00001040 g     F .text\t00000010 main"
    let label := "00001050 l    \r  .text\r00000010\r.LBB0_1"
    let text := main ++ "\r\n" ++ label ++ "\n\n" ++ main ++ "\r"
    let more := main ++ "\r\r\r\n" ++ label ++ "\r\n\r\r\n" ++ main ++ "\r"
    let lines := [main, label, "", main ++ "\r"]
    let others := [main ++ "\r\r", label, "\r", main ++ "\r"]
    Text.AddsReturns text.toList more.toList ∧
      ((DumpSource.file "main.dump" (.ok (Text.encode text))).read "main.elf").result = .ok lines ∧
      ((DumpSource.file "main.dump" (.ok (Text.encode more))).read "main.elf").result =
        .ok others ∧
      SymbolReading.ofLines .empty [".text"] others = SymbolReading.ofLines .empty [".text"] lines ∧
      (SymbolReading.ofLines .empty [".text"] others).counts = ⟨4, 3, 3⟩ := by
  intro main label text more lines others
  have htext : text.toList = (main.toList ++ ['\r']) ++ '\n' :: (label.toList ++ '\n' :: '\n' ::
      (main.toList ++ ['\r'])) := by simp [text]
  have hmore : more.toList = (main.toList ++ ['\r']) ++ (List.replicate 2 '\r' ++ '\n' ::
      (label.toList ++ (List.replicate 1 '\r' ++ '\n' :: (List.replicate 2 '\r' ++ '\n' ::
        (main.toList ++ ['\r']))))) := by simp [more]
  have hadds : Text.AddsReturns text.toList more.toList := by
    rw [htext, hmore]
    exact (Text.AddsReturns.refl _).append <| .lineFeed 2 <| (Text.AddsReturns.refl _).append <|
      .lineFeed 1 <| .lineFeed 2 <| .refl _
  obtain ⟨_, _, hlines, hothers, -, hsame⟩ :=
    line_ends_do_not_matter.{0} hadds "main.dump" "main.elf"
  have htextLines : Text.lines text.toList = lines := by
    rw [htext]
    decide +kernel
  have hmoreLines : Text.lines more.toList = others := by
    rw [hmore]
    decide +kernel
  have hread := DumpSource.result_read_encode "main.dump" "main.elf" text
  have hreadMore := DumpSource.result_read_encode "main.dump" "main.elf" more
  rw [htextLines] at hread
  rw [hmoreLines] at hreadMore
  obtain rfl := Except.ok.inj (hlines.symm.trans hread)
  obtain rfl := Except.ok.inj (hothers.symm.trans hreadMore)
  exact ⟨hadds, hread, hreadMore, (hsame .empty [".text"]).1, by decide +kernel⟩

end CodeMap
