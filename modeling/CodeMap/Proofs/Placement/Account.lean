import CodeMap.Proofs.Placement.Tally
import CodeMap.Proofs.Placement.Walk
import Mathlib.Data.List.Forall2

/-! # What a report tells

A walk counts as it goes, and writes addresses as it goes. Here the two are held together: the
counts of a report are those of the functions that the table resolves, of their blocks and their
instructions, and these are the parts that have addresses afterwards; the functions that are skipped
are those that the log warns of (`Program.report_tells_what_was_placed`).
-/

namespace CodeMap

/-! ## Counts -/

/-- Functions that are all placed, with the blocks and the instructions of all of them. -/
def Tally.ofPlaced (t : SymbolTable) (fs : List MachineFunction) : Tally where
  functions := fs.length
  blocks := (fs.flatMap MachineFunction.blocks).length
  labeledBlocks := (fs.map fun f => f.blocks.countP fun b => t.contains (b.label f.name)).sum
  instructions := ((fs.flatMap MachineFunction.blocks).flatMap Block.instructions).length

theorem Block.instructionCount_eq (bs : List Block) :
    instructionCount bs = (bs.flatMap instructions).length := by
  rw [instructionCount, List.length_flatMap]

/-- A program counts with the functions that the table resolves. -/
theorem Tally.ofProgram_eq (t : SymbolTable) (p : Program) :
    ofProgram t p = ofPlaced t (p.functions.filter t.resolves) := by
  rw [ofProgram, ofFunctions]
  induction p.functions with
  | nil => rfl
  | cons f rest ih =>
    -- The tally and the filter ask the same of a function.
    rw [List.foldr_cons, ih, List.filter_cons, ofFunction]
    split
    · simp [ofPlaced, add, Block.instructionCount_eq, Nat.add_comm]
    · simp [ofPlaced, add, zero]

/-- The counts of a report as natural numbers. -/
def Report.tally (r : Report) : Tally :=
  ⟨r.functions.toNat, r.blocks.toNat, r.labeledBlocks.toNat, r.instructions.toNat⟩

/-- Counts that are words are found again in a report. -/
theorem Tally.Le.tally_report {c : Tally} {n : Nat} (h : c.Le (uniform n)) (hn : n < UInt64.size)
    (skipped : List String) : (c.report skipped).tally = c := by
  have word {i : Nat} (hi : i ≤ n) : (UInt64.ofNat i).toNat = i :=
    UInt64.toNat_ofNat_of_lt' (Nat.lt_of_le_of_lt hi hn)
  rw [report, Report.tally, word h.functions, word h.blocks, word h.labeledBlocks,
    word h.instructions]

/-! ## Events -/

namespace MachineFunction

variable {t : SymbolTable} {f : MachineFunction}

/-- Of a function there is a warning exactly if it is not resolved. -/
theorem filter_warn_placementEvents (t : SymbolTable) (f : MachineFunction) :
    (f.placementEvents t).filter (fun e => e.level = .warn) =
      if t.resolves f then [] else [.functionUnresolved f.descriptor] := by
  rw [placementEvents]
  split
  · rw [List.filter_eq_nil_iff]
    intro e he
    obtain ⟨s, -, hs⟩ := List.mem_filterMap.mp he
    obtain ⟨labeled, -, rfl⟩ := Option.map_eq_some_iff.mp hs
    exact Bool.false_ne_true
  · rfl

end MachineFunction

theorem Program.filter_warn_placementEvents (t : SymbolTable) (p : Program) :
    (p.placementEvents t).filter (fun e => e.level = .warn) =
      (t.unresolved p.functions).map Event.functionUnresolved := by
  rw [placementEvents]
  induction p.functions with
  | nil => rfl
  | cons f rest ih =>
    rw [List.flatMap_cons, List.filter_append, ih, MachineFunction.filter_warn_placementEvents,
      t.unresolved_cons, List.map_append]
    split <;> rfl

/-! ## Addresses -/

namespace MachineFunction

variable {t : SymbolTable} {f : MachineFunction}

/-- No block of the function has an address, nor has any of its instructions. -/
def HasNoAddress (f : MachineFunction) : Prop :=
  ∀ b ∈ f.blocks, b.address = none ∧ ∀ i ∈ b.instructions, i.address = none

instance (f : MachineFunction) : Decidable f.HasNoAddress :=
  inferInstanceAs (Decidable (∀ b ∈ f.blocks, _ ∧ ∀ i ∈ b.instructions, _))

theorem length_blocks_place (t : SymbolTable) (f : MachineFunction) :
    (f.place t).blocks.length = f.blocks.length := by
  have h := congrArg (fun g => g.blocks.length) (f.unplaced_place t)
  simpa [unplaced] using h

theorem instructionCount_place (t : SymbolTable) (f : MachineFunction) :
    Block.instructionCount (f.place t).blocks = Block.instructionCount f.blocks := by
  have h := congrArg (fun g => Block.instructionCount g.blocks) (f.unplaced_place t)
  simpa [unplaced, Block.instructionCount, Function.comp_def] using h

/-- Blocks have addresses after the placement if the table resolves their function. -/
theorem HasNoAddress.countP_blocks_place (h : f.HasNoAddress) (t : SymbolTable) :
    (f.place t).blocks.countP (fun b => b.address.isSome) = (Tally.ofFunction t f).blocks := by
  rw [Tally.ofFunction]
  split
  · next hresolves =>
    show _ = f.blocks.length
    rw [← length_blocks_place t f, List.countP_eq_length]
    exact fun b hb => (Bool.and_eq_true_iff.mp (isPlaced_of_mem_place hresolves b hb)).1
  · next hresolves =>
    rw [place_eq_self (Option.not_isSome_iff_eq_none.mp hresolves), List.countP_eq_zero.mpr]
    · rfl
    · intro b hb
      simp [(h b hb).1]

/-- So have their instructions. -/
theorem HasNoAddress.countP_instructions_place (h : f.HasNoAddress) (t : SymbolTable) :
    ((f.place t).blocks.flatMap Block.instructions).countP (fun i => i.address.isSome) =
      (Tally.ofFunction t f).instructions := by
  rw [Tally.ofFunction]
  split
  · next hresolves =>
    show _ = Block.instructionCount f.blocks
    rw [← instructionCount_place t f, Block.instructionCount_eq, List.countP_eq_length]
    intro i hi
    obtain ⟨b, hb, hi⟩ := List.mem_flatMap.mp hi
    have hplaced := isPlaced_of_mem_place hresolves b hb
    exact List.all_eq_true.mp (Bool.and_eq_true_iff.mp hplaced).2 i hi
  · next hresolves =>
    rw [place_eq_self (Option.not_isSome_iff_eq_none.mp hresolves), List.countP_eq_zero.mpr]
    · rfl
    · intro i hi
      obtain ⟨b, hb, hi⟩ := List.mem_flatMap.mp hi
      simp [(h b hb).2 i hi]

theorem HasNoAddress.isPlaced_iff (h : f.HasNoAddress) (t : SymbolTable) :
    ∀ b ∈ (f.place t).blocks, b.isPlaced ↔ t.resolves f := by
  intro b hb
  refine ⟨fun hplaced => ?_, fun hresolves => isPlaced_of_mem_place hresolves b hb⟩
  by_contra hresolves
  rw [place_eq_self (Option.not_isSome_iff_eq_none.mp hresolves)] at hb
  rw [Block.isPlaced, (h b hb).1] at hplaced
  cases hplaced

/-- The parts that have addresses after the placement are those that count. -/
theorem countP_place {fs : List MachineFunction} (h : ∀ f ∈ fs, f.HasNoAddress) (t : SymbolTable) :
    ((fs.map (place t)).flatMap blocks).countP (fun b => b.address.isSome) =
        (Tally.ofFunctions t fs).blocks ∧
      (((fs.map (place t)).flatMap blocks).flatMap Block.instructions).countP
        (fun i => i.address.isSome) = (Tally.ofFunctions t fs).instructions := by
  induction fs with
  | nil => exact ⟨rfl, rfl⟩
  | cons f rest ih =>
    obtain ⟨hf, hrest⟩ := List.forall_mem_cons.mp h
    obtain ⟨hblocks, hinstructions⟩ := ih hrest
    rw [List.map_cons, List.flatMap_cons, List.flatMap_append, List.countP_append,
      List.countP_append, hblocks, hinstructions, hf.countP_blocks_place,
      hf.countP_instructions_place]
    exact ⟨rfl, rfl⟩

end MachineFunction

namespace Program

/-- All blocks of a program, in order. -/
def blocks (p : Program) : List Block := p.functions.flatMap MachineFunction.blocks

/-- All instructions of a program, in order. -/
def instructions (p : Program) : List Instruction := p.blocks.flatMap Block.instructions

/-- **The report tells what was placed.** The functions that the table does not resolve are skipped.
The report has their descriptors in the order of the program, and the warnings of the log are these.
All other functions are counted, with their blocks, those of them whose label the table has, and
their instructions. The counts are words, and they are exact unless the program has more parts than
there are words. In a program without addresses, these blocks and instructions are as many as have
addresses afterwards, and a block is placed exactly if the table resolves its function. -/
theorem report_tells_what_was_placed (t : SymbolTable) (p : Program) :
    let q := p.place t
    let r := Report.ofProgram t p
    let events := p.placementEvents t
    let counts := Tally.ofPlaced t (p.functions.filter t.resolves)
    p.walk t = (q, r, events) ∧
      r.skipped = (p.functions.filter fun f => !t.resolves f).map MachineFunction.descriptor ∧
      (events.filter fun e => e.level = .warn) = r.skipped.map Event.functionUnresolved ∧
      (∀ d, (Event.functionUnresolved d).level = .warn ∧
        (Event.functionUnresolved d).message = "No symbol for machine function " ++ d) ∧
      counts.functions + r.skipped.length = p.functions.length ∧
      r = counts.report r.skipped ∧ (p.parts < UInt64.size → r.tally = counts) ∧
      ((∀ f ∈ p.functions, f.HasNoAddress) →
        q.blocks.countP (fun b => b.address.isSome) = counts.blocks ∧
          q.instructions.countP (fun i => i.address.isSome) = counts.instructions ∧
          List.Forall₂ (fun f g => ∀ b ∈ g.blocks, b.isPlaced ↔ t.resolves f)
            p.functions q.functions) := by
  intro q r events counts
  have hcounts : Tally.ofProgram t p = counts := Tally.ofProgram_eq t p
  have hreport : r = counts.report (t.unresolved p.functions) := hcounts ▸ Report.ofProgram_eq t p
  have hskipped : r.skipped = t.unresolved p.functions := by
    rw [hreport]
    rfl
  refine ⟨p.walk_eq t, hskipped, ?_, fun _ => ⟨rfl, rfl⟩, ?_, ?_, ?_, fun hbare => ?_⟩
  · rw [hskipped]
    exact p.filter_warn_placementEvents t
  · rw [hskipped, SymbolTable.unresolved, List.length_map]
    exact (List.length_eq_length_filter_add t.resolves).symm
  · rw [hskipped]
    exact hreport
  · intro hparts
    have hle : counts.Le (.uniform p.parts) := hcounts ▸ Tally.ofProgram_le_parts t p
    rw [hreport, hle.tally_report hparts]
  · obtain ⟨hblocks, hinstructions⟩ := MachineFunction.countP_place hbare t
    refine ⟨hblocks.trans (congrArg Tally.blocks hcounts),
      hinstructions.trans (congrArg Tally.instructions hcounts), ?_⟩
    exact List.forall₂_map_right_iff.mpr
      (List.forall₂_same.mpr fun f hf => (hbare f hf).isPlaced_iff t)

/-- One function is skipped. Another one has an empty block and a block with a label, and a third
one has no blocks at all. -/
theorem report_tells_what_was_placed_of_three :
    let t : SymbolTable := .ofPairs [("f", 0x100), (".LBB5_2", 0x200), (".LBB6_0", 0x300)]
    let p : Program :=
      ⟨[.ofBlocks (.number 5) (some "f") [.ofSizes 0 [4], .ofSizes 1 [], .ofSizes 2 [2]],
        .ofBlocks (.number 2) (some "bar") [.ofSizes 0 [4]], .ofBlocks (.number 6) none []], .empty⟩
    let q := p.place t
    (∀ f ∈ p.functions, f.HasNoAddress) ∧ p.parts < UInt64.size ∧
      p.walk t = (q, ⟨2, ["2/bar"], 3, 1, 2⟩,
        [.labelOverrides "5" "2" 0x104 0x200, .functionUnresolved "2/bar"]) ∧
      (Report.ofProgram t p).tally = ⟨2, 3, 1, 2⟩ ∧
      q.blocks.countP (fun b => b.address.isSome) = 3 ∧
      q.instructions.countP (fun i => i.address.isSome) = 2 := by
  intro t p q
  have hbare : ∀ f ∈ p.functions, f.HasNoAddress := by decide +kernel
  have hparts : p.parts < UInt64.size := by decide +kernel
  obtain ⟨hwalk, -, -, -, -, -, htally, haddressed⟩ := report_tells_what_was_placed t p
  obtain ⟨hblocks, hinstructions, -⟩ := haddressed hbare
  refine ⟨hbare, hparts, hwalk.trans ?_, (htally hparts).trans ?_, hblocks.trans ?_,
    hinstructions.trans ?_⟩
  · decide +kernel
  · decide +kernel
  · decide +kernel
  · decide +kernel

end Program

end CodeMap
