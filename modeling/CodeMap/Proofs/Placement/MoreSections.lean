import CodeMap.Proofs.Placement.Tally
import CodeMap.Symbol.Counts

/-! # More sections, more coverage

A dump that is read with more sections gives a table with more labels. A label may have another
address by it, since a later row of a new section counts, but none is lost
(`SymbolTable.covers_ofLines`). So every function that was placed is placed, no function is skipped
that was not skipped before, and no count gets smaller (`Program.more_sections_cover_more`).
-/

namespace CodeMap

/-! ## Tables with more labels -/

namespace SymbolTable.Covers

variable {t u : SymbolTable}

theorem tally_ofFunction_le (h : t.Covers u) (f : MachineFunction) :
    (Tally.ofFunction t f).Le (Tally.ofFunction u f) := by
  rw [Tally.ofFunction]
  split
  · next hf =>
    rw [Tally.ofFunction, if_pos (h.resolves hf)]
    have hlabeled : f.blocks.countP (fun b => t.contains (b.label f.name)) ≤
        f.blocks.countP fun b => u.contains (b.label f.name) :=
      List.countP_mono_left fun b _ => h (b.label f.name)
    exact ⟨Nat.le_refl _, Nat.le_refl _, hlabeled, Nat.le_refl _⟩
  · exact Tally.zero_le _

/-- A table with more labels counts no less of a program. -/
theorem tally_le (h : t.Covers u) (p : Program) :
    (Tally.ofProgram t p).Le (Tally.ofProgram u p) := by
  rw [Tally.ofProgram, Tally.ofProgram]
  induction p.functions with
  | nil => exact Tally.zero_le _
  | cons f rest ih => exact (h.tally_ofFunction_le f).add ih

/-- It leaves only functions unresolved that were unresolved before, in the same order. -/
theorem unresolved_sublist (h : t.Covers u) (fs : List MachineFunction) :
    (u.unresolved fs).Sublist (t.unresolved fs) := by
  apply List.Sublist.map
  apply List.monotone_filter_right
  intro f hf
  rw [Bool.not_eq_true', Bool.eq_false_iff] at hf ⊢
  exact fun ht => hf (h.resolves ht)

end SymbolTable.Covers

/-! ## Reports -/

/-- No count of the first report is greater than that of the second one. -/
structure Report.CountsLe (r q : Report) : Prop where
  functions : r.functions ≤ q.functions
  blocks : r.blocks ≤ q.blocks
  labeledBlocks : r.labeledBlocks ≤ q.labeledBlocks
  instructions : r.instructions ≤ q.instructions

/-- Counts that are words keep their order in a report. -/
theorem Tally.Le.report {a b : Tally} {n : Nat} (h : a.Le b) (hb : b.Le (uniform n))
    (hn : n < UInt64.size) (skipped more : List String) :
    (a.report skipped).CountsLe (b.report more) := by
  have word {i j : Nat} (hij : i ≤ j) (hj : j ≤ n) : UInt64.ofNat i ≤ UInt64.ofNat j := by
    have hj' : j < UInt64.size := Nat.lt_of_le_of_lt hj hn
    exact (UInt64.ofNat_le_iff_le (Nat.lt_of_le_of_lt hij hj') hj').mpr hij
  exact ⟨word h.functions hb.functions, word h.blocks hb.blocks,
    word h.labeledBlocks hb.labeledBlocks, word h.instructions hb.instructions⟩

/-- **More sections, more coverage.** A dump that is read with more sections gives a table with all
the labels that it had; every function that was placed is placed; the functions that are skipped were
skipped before, in the same order. The report holds counts in words that are no smaller as numbers,
and so, as long as the program has fewer parts than there are words, no smaller as words either. Of
the dump no fewer addresses are counted, and as many rows and lines. -/
theorem Program.more_sections_cover_more {sections wider : List String} (h : sections ⊆ wider)
    (lines : List String) (p : Program) :
    let t := SymbolTable.ofLines sections lines
    let u := SymbolTable.ofLines wider lines
    let r := Report.ofProgram t p
    let q := Report.ofProgram u p
    let c := DumpCounts.ofLines sections lines
    let d := DumpCounts.ofLines wider lines
    (∀ label, t.contains label → u.contains label) ∧
      (∀ f : MachineFunction, (f.place? t).isSome → (f.place? u).isSome) ∧
      q.skipped.Sublist r.skipped ∧
      (r = (Tally.ofProgram t p).report r.skipped ∧ q = (Tally.ofProgram u p).report q.skipped ∧
        (Tally.ofProgram t p).Le (Tally.ofProgram u p)) ∧
      (p.parts < UInt64.size → r.CountsLe q) ∧
      c.addresses ≤ d.addresses ∧ c.lines = d.lines ∧ c.rows = d.rows := by
  intro t u r q c d
  have hcovers : t.Covers u := SymbolTable.covers_ofLines h lines
  have hr : r = (Tally.ofProgram t p).report (t.unresolved p.functions) := Report.ofProgram_eq t p
  have hq : q = (Tally.ofProgram u p).report (u.unresolved p.functions) := Report.ofProgram_eq u p
  have hle := hcovers.tally_le p
  refine ⟨hcovers, ?_, ?_, ⟨?_, ?_, hle⟩, ?_, ?_, rfl, rfl⟩
  · intro f hf
    rw [MachineFunction.isSome_place?] at hf ⊢
    exact hcovers.resolves hf
  · rw [hr, hq]
    exact hcovers.unresolved_sublist p.functions
  · rw [hr]
    rfl
  · rw [hq]
    rfl
  · intro hparts
    rw [hr, hq]
    exact hle.report (Tally.ofProgram_le_parts u p) hparts _ _
  · exact (SymbolTable.accepted_sublist h lines).length_le

/-- With `.init` a function more is placed. The function that was placed has another address, since
its label has a later row in `.init`. -/
theorem Program.more_sections_cover_more_of_moved_label :
    let lines := ["00001000 g     F .text\t00000010 main", "00002000 g     F .init\t00000010 main",
      "00003000 g     F .init\t00000010 start"]
    let f : MachineFunction := .ofBlocks (.number 7) (some "main") [.ofSizes 0 [4, 4]]
    let g : MachineFunction := .ofBlocks (.string "g") (some "start") [.ofSizes 0 [4]]
    let p : Program := ⟨[g, f], .empty⟩
    let t := SymbolTable.ofLines [".text"] lines
    let u := SymbolTable.ofLines [".text", ".init"] lines
    [".text"] ⊆ [".text", ".init"] ∧ t.contains "main" ∧ u.contains "main" ∧
      (f.place? t).isSome ∧ (f.place? u).isSome ∧ p.parts < UInt64.size ∧
      (Report.ofProgram t p).CountsLe (Report.ofProgram u p) ∧
      Report.ofProgram t p = ⟨1, ["g/start"], 1, 0, 2⟩ ∧
      Report.ofProgram u p = ⟨2, [], 2, 0, 3⟩ ∧
      t.get? "main" = some 0x1000 ∧ u.get? "main" = some 0x2000 := by
  intro lines f g p t u
  have hsub : [".text"] ⊆ [".text", ".init"] := by decide
  have hmain : t.contains "main" := by decide +kernel
  have hf : (f.place? t).isSome := by decide +kernel
  have hparts : p.parts < UInt64.size := by decide
  obtain ⟨hlabels, hplaced, -, -, hcounts, -⟩ := more_sections_cover_more hsub lines p
  refine ⟨hsub, hmain, hlabels _ hmain, hf, hplaced f hf, hparts, hcounts hparts, ?_⟩
  decide +kernel

end CodeMap
