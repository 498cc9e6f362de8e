import CodeMap.Proofs.Symbol.Coverage
import CodeMap.Symbol.Reading
import Mathlib.Data.List.Induction

/-! # Reading with a report

A dump can be read with any action as the report of a row. The reports are made one after another,
of the accepted rows of the dump; they have no part in what is read. A label has the address of the
last of these rows that gives it one, or else the one it had before. And a dump that is read in
pieces is read as a whole (`SymbolTable.reading_reports_and_enters`).
-/

namespace CodeMap

universe u

namespace SymbolTable

/-! ## The last row of a label -/

/-- The address that the last one of the rows with the label gives it. -/
def lastAddress? (rows : List SymbolRow) (label : String) : Option UInt64 :=
  (rows.filter fun r => r.label = label).getLast?.map SymbolRow.address

theorem get?_enter (t : SymbolTable) (rows : List SymbolRow) (label : String) :
    (t.enter rows).get? label = (lastAddress? rows label).or (t.get? label) := by
  induction rows using List.reverseRecOn with
  | nil => rfl
  | append_singleton rows r ih =>
    rw [enter_append, enter_cons, enter_nil, get?_insert, ih, lastAddress?, lastAddress?,
      List.filter_append, List.getLast?_append]
    by_cases hlabel : r.label = label <;> simp [hlabel]

/-! ## Reports -/

variable {m : Type → Type u} [Monad m] [LawfulMonad m] (report : SymbolRow → m Unit)
  (sections : List String)

/-- What one line does is what a dump of this line does. -/
theorem stepWith_eq (x : SymbolTable × DumpCounts) (line : String) :
    stepWith report sections x line = (do
      forM (accepted sections [line]) report
      pure (x.1.extend sections [line], x.2.add (.ofLines sections [line]))) := by
  rw [stepWith, extend, DumpCounts.ofLines, accepted, rows, List.filterMap_cons]
  cases SymbolRow.ofLine? line with
  | none => simp [takeWith]
  | some r =>
    simp only [takeWith, List.filterMap_nil, List.filter_cons, List.filter_nil]
    split <;> simp

/-- The lines are read on from what is read already, which takes no part in the reports. -/
theorem foldlM_stepWith (x : SymbolTable × DumpCounts) (lines : List String) :
    lines.foldlM (stepWith report sections) x = (do
      forM (accepted sections lines) report
      pure (x.1.extend sections lines, x.2.add (.ofLines sections lines))) := by
  induction lines generalizing x with
  | nil =>
    have hnone : forM (accepted sections []) report = pure () := List.forM_nil
    rw [hnone, pure_bind]
    rfl
  | cons line rest ih =>
    -- The line is read as a dump of one line. Its report comes before all those of the rest.
    rw [List.foldlM_cons, stepWith_eq, bind_assoc]
    simp only [pure_bind, ih]
    rw [← bind_assoc, ← List.singleton_append (l := rest), DumpCounts.ofLines_append,
      accepted_append, extend_append, DumpCounts.add_assoc, List.forM_append]

theorem extendWith_eq (t : SymbolTable) (lines : List String) :
    t.extendWith report sections lines = (do
      forM (accepted sections lines) report
      pure (t.extend sections lines, DumpCounts.ofLines sections lines)) := by
  rw [extendWith, foldlM_stepWith, DumpCounts.zero_add]

theorem read_eq (t : SymbolTable) (sections lines : List String) :
    t.read sections lines = (t.extend sections lines, .ofLines sections lines) := by
  have hread := extendWith_eq (m := Id) (fun _ => pure ()) sections t lines
  rw [read, hread]
  rfl

/-- A dump is read with the reports of its first lines, and then with those of the others. -/
theorem extendWith_append (t : SymbolTable) (lines more : List String) :
    t.extendWith report sections (lines ++ more) = (do
      let (u, counts) ← t.extendWith report sections lines
      let (v, others) ← u.extendWith report sections more
      pure (v, counts.add others)) := by
  simp only [extendWith_eq, bind_assoc, pure_bind]
  rw [← bind_assoc, DumpCounts.ofLines_append, accepted_append, extend_append, List.forM_append]

/-! ## Rows that are kept -/

theorem run_forM_push (rows seen : List SymbolRow) :
    (forM rows fun r => modify fun kept => kept ++ [r] : StateM (List SymbolRow) _).run seen =
      ((), seen ++ rows) := by
  induction rows generalizing seen with
  | nil => rw [List.forM_nil, List.append_nil]; rfl
  | cons r rest ih =>
    rw [List.forM_cons, StateT.run_bind]
    exact (ih (seen ++ [r])).trans (by rw [List.append_assoc, List.singleton_append])

/-- If a report keeps the row, the rows that are reported are kept. -/
theorem run_extendWith_push (t : SymbolTable) (lines : List String) (seen : List SymbolRow) :
    let x := SymbolReading.ofLines t sections lines
    (t.extendWith (fun r => modify fun kept => kept ++ [r]) sections lines :
      StateM (List SymbolRow) _).run seen = ((x.table, x.counts), seen ++ x.reported) := by
  rw [extendWith_eq, SymbolReading.ofLines_eq, StateT.run_bind, run_forM_push]
  rfl

/-! ## The reading as a whole -/

/-- **A reading reports and enters the accepted rows.** These are the lines that are rows and lie in
one of the sections. They are reported once each and in order, whatever a report does, and with or
without reports the same is read: a label has the address of the last such row of it, or else the
one it had; the lines, the rows and the accepted rows are counted. If the dump goes on, it is the
same to read the rest into what is read so far: so are the reports, and the counts add up. -/
theorem reading_reports_and_enters (t : SymbolTable) (lines : List String) :
    let told := (lines.filterMap SymbolRow.ofLine?).filter fun r => sections.contains r.sectionName
    let x := t.read sections lines
    t.extendWith report sections lines = (do
        forM told report
        pure x) ∧
      (∀ label, x.1.get? label = (lastAddress? told label).or (t.get? label)) ∧
      x.2 = ⟨lines.length, lines.countP fun line => (SymbolRow.ofLine? line).isSome,
        told.length⟩ ∧
      ∀ more,
        t.extendWith report sections (lines ++ more) = (do
          let (u, counts) ← t.extendWith report sections lines
          let (v, others) ← u.extendWith report sections more
          pure (v, counts.add others)) ∧
        let y := x.1.read sections more
        t.read sections (lines ++ more) = (y.1, x.2.add y.2) := by
  intro told x
  have hx : x = (t.extend sections lines, DumpCounts.ofLines sections lines) :=
    t.read_eq sections lines
  refine ⟨?_, fun label => ?_, ?_, fun more => ⟨extendWith_append report sections t lines more, ?_⟩⟩
  · rw [hx]
    exact extendWith_eq report sections t lines
  · rw [hx]
    exact t.get?_enter told label
  · rw [hx, ← List.length_filterMap_eq_countP]
    rfl
  · simp only [hx, read_eq, extend_append, DumpCounts.ofLines_append]

/-- A dump with a label that occurs twice, and had an address before. A report is the label. -/
theorem reading_reports_and_enters_labels :
    let t : SymbolTable := .ofPairs [("dup", 0x500), ("table", 0x10)]
    let lines := ["", "00001000 g     F .text\t00000010 dup",
      "00003000 g     O .rodata\t00000004 table", "00002000 g     F .text\t00000010 dup"]
    let x := t.read [".text"] lines
    (t.extendWith (fun r => modify fun seen => seen ++ [r.label]) [".text"] lines :
        StateM (List String) _).run [] = (x, ["dup", "dup"]) ∧
      x.1.get? "dup" = some 0x2000 ∧ x.1.get? "table" = some 0x10 ∧ x.2 = ⟨4, 3, 2⟩ := by
  intro t lines x
  let report (r : SymbolRow) : StateM (List String) Unit := modify fun seen => seen ++ [r.label]
  obtain ⟨hreport, hget, hcounts, -⟩ := reading_reports_and_enters report [".text"] t lines
  have htold : accepted [".text"] lines =
      [⟨0x1000, ".text", "dup"⟩, ⟨0x2000, ".text", "dup"⟩] := by
    decide +kernel
  rw [accepted, rows] at htold
  rw [htold] at hreport hget hcounts
  refine ⟨congrArg (fun y => y.run []) hreport, (hget "dup").trans ?_, (hget "table").trans ?_,
    hcounts.trans ?_⟩
  · decide +kernel
  · decide +kernel
  · decide +kernel

end SymbolTable

end CodeMap
