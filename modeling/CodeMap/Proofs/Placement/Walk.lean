import CodeMap.Placement.Walk
import CodeMap.Proofs.InPlace
import CodeMap.Proofs.Placement.Contiguous

/-! # What a walk leaves behind

A walk has one state for what the views of a placement tell apart. Here the state is followed from
instruction to instruction, from block to block and from function to function; in the end it is made
of the program in its place, of the report and of the events (`Program.walk_eq`).
-/

namespace CodeMap

open InPlace

/-! ## Blocks one by one -/

namespace Report

/-- The report of one block in its slot. -/
def ofSlot (s : Slot) : Report where
  functions := 0
  skipped := []
  blocks := 1
  labeledBlocks := if s.labeled.isSome then 1 else 0
  instructions := UInt64.ofNat s.block.instructions.length

/-- The report of blocks in their slots, without the function that they belong to. -/
def ofBlocks (slots : List Slot) : Report := { ofSlots slots with functions := 0 }

theorem ofBlocks_cons (s : Slot) (rest : List Slot) :
    ofBlocks (s :: rest) = (ofSlot s).merge (ofBlocks rest) := by
  cases hlabel : s.labeled with
  | none => simp [ofBlocks, ofSlots, ofSlot, merge, hlabel, UInt64.add_comm]
  | some labeled => simp [ofBlocks, ofSlots, ofSlot, merge, hlabel, UInt64.add_comm]

theorem merge_ofSlot (r : Report) (s : Slot) :
    r.merge (ofSlot s) = { r with
      blocks := r.blocks + 1
      labeledBlocks := r.labeledBlocks + if s.labeled.isSome then 1 else 0
      instructions := r.instructions + UInt64.ofNat s.block.instructions.length } := by
  simp [merge, ofSlot]

/-- A function is counted once, before its blocks. -/
theorem merge_ofBlocks (slots : List Slot) :
    { zero with functions := 1 }.merge (ofBlocks slots) = ofSlots slots := by
  simp [merge, zero, ofBlocks, ofSlots]

end Report

/-! ## Over the blocks of a function -/

namespace Walk

variable {t : SymbolTable} {function : Name}

/-- Over instructions the walk goes on by their bytes and counts them. -/
theorem run_mapM_instruction (is : List Instruction) (w : Walk) :
    (is.mapM instruction).run w =
      (Instruction.layOut w.next is,
        { w with
          next := w.next + UInt64.ofNat (Instruction.bytes is)
          report := { w.report with
            instructions := w.report.instructions + UInt64.ofNat is.length } }) := by
  induction is generalizing w with
  | nil =>
    rw [run_mapM_nil]
    simp [Instruction.layOut]
  | cons i rest ih =>
    have hfirst : (instruction i).run w = ({ i with address := some w.next },
      { w with
        next := w.next + i.size
        report := { w.report with instructions := w.report.instructions + 1 } }) := rfl
    rw [run_mapM_cons hfirst (ih _)]
    simp [Instruction.layOut, UInt64.add_assoc, UInt64.add_comm 1]

theorem run_inside (b : Block) (w : Walk) :
    (inside b).run w = (b.placeAt w.next, ⟨w.next + b.extent,
      { w.report with
        blocks := w.report.blocks + 1
        instructions := w.report.instructions + UInt64.ofNat b.instructions.length },
      w.events⟩) := by
  show (b.instructions.mapM instruction >>= fun is =>
    pure { b with address := some w.next, instructions := is }).run
      { w with report := { w.report with blocks := w.report.blocks + 1 } } = _
  rw [run_bind (run_mapM_instruction ..), Block.extent_eq]
  rfl

theorem run_toLabel (t : SymbolTable) (function : Name) (b : Block) (w : Walk) :
    let s : Slot := ⟨b, w.next, t.get? (b.label function)⟩
    (toLabel t function b).run w = ((), ⟨s.start,
      { w.report with
        labeledBlocks := w.report.labeledBlocks + if s.labeled.isSome then 1 else 0 },
      w.events ++ (s.event? function).toList⟩) := by
  intro s
  rw [toLabel]
  cases hlabel : t.get? (b.label function) with
  | none =>
    have hs : s = ⟨b, w.next, none⟩ := by rw [← hlabel]
    show ((), w) = _
    rw [hs, Slot.event?_eq]
    simp [Slot.start]
  | some labeled =>
    have hs : s = ⟨b, w.next, some labeled⟩ := by rw [← hlabel]
    show ((), (⟨labeled, { w.report with labeledBlocks := w.report.labeledBlocks + 1 },
      if labeled = w.next then w.events
      else w.events ++ [Event.labelOverrides function.text b.name.text w.next labeled]⟩ : Walk)) = _
    rw [hs, Slot.event?_eq, Option.bind_some]
    split
    · simp [Slot.start]
    · simp [Slot.start]

/-- Over a block the walk goes from the address where it is inferred to lie to the one where it
stops. -/
theorem run_block (t : SymbolTable) (function : Name) (b : Block) (w : Walk) :
    let s : Slot := ⟨b, w.next, t.get? (b.label function)⟩
    (block t function b).run w = (s.placed,
      ⟨s.stop, w.report.merge (.ofSlot s), w.events ++ (s.event? function).toList⟩) := by
  intro s
  rw [block, run_bind (run_toLabel ..), run_inside, Report.merge_ofSlot]
  rfl

/-- Over blocks the walk goes from slot to slot. -/
theorem run_mapM_block (t : SymbolTable) (function : Name) (bs : List Block) (w : Walk) :
    let slots := t.slots function w.next bs
    (bs.mapM (block t function)).run w = (slots.map Slot.placed,
      ⟨t.stop function w.next bs, w.report.merge (.ofBlocks slots),
        w.events ++ slots.filterMap (Slot.event? function)⟩) := by
  -- The rest is walked from the state that the first block leaves, so the state is any state.
  induction bs generalizing w with
  | nil =>
    have hreport : w.report.merge (.ofBlocks []) = w.report := w.report.merge_zero
    show ([], w) = ([], (⟨w.next, w.report.merge (.ofBlocks []), w.events ++ []⟩ : Walk))
    rw [hreport, List.append_nil]
  | cons b rest ih =>
    let s : Slot := ⟨b, w.next, t.get? (b.label function)⟩
    intro slots
    have hslots : slots = s :: t.slots function s.stop rest := rfl
    have hevents : slots.filterMap (Slot.event? function) = (s.event? function).toList ++
        (t.slots function s.stop rest).filterMap (Slot.event? function) := by
      rw [hslots, List.filterMap_cons]
      cases s.event? function <;> rfl
    rw [run_mapM_cons (run_block t function b w) (ih _), hevents, hslots, List.map_cons,
      Report.ofBlocks_cons, ← Report.merge_assoc, ← List.append_assoc]
    rfl

end Walk

/-! ## Over the functions of a program -/

section Functions

variable {t : SymbolTable} {f : MachineFunction}

theorem Report.ofFunction_of_entry {entry : UInt64} (h : t.entry? f = some entry) :
    ofFunction t f = ofSlots (t.slots f.name entry f.blocks) := by
  rw [ofFunction, ofFunction?, MachineFunction.slots?_of_entry h]
  rfl

theorem Report.ofFunction_of_none (h : t.entry? f = none) :
    ofFunction t f = { zero with skipped := [f.descriptor] } := by
  rw [ofFunction, ofFunction?, SymbolTable.slots?, h]
  rfl

namespace MachineFunction

/-- A function that the table resolves has the events of its blocks. -/
theorem placementEvents_of_entry {entry : UInt64} (h : t.entry? f = some entry) :
    f.placementEvents t = f.overrideEvents t := by
  rw [placementEvents, SymbolTable.resolves, h]
  rfl

theorem placementEvents_of_none (h : t.entry? f = none) :
    f.placementEvents t = [.functionUnresolved f.descriptor] := by
  rw [placementEvents, SymbolTable.resolves, h]
  rfl

/-- A walk over a function that the table resolves leaves it in its place, with its report and its
events. -/
theorem walk?_eq_some {entry : UInt64} (h : t.entry? f = some entry) :
    f.walk? t = some (f.place t, .ofSlots (t.slots f.name entry f.blocks), f.overrideEvents t) := by
  have hrun := Walk.run_mapM_block t f.name f.blocks (Walk.start entry)
  rw [walk?, h, Option.map_some, hrun, place_of_entry h, overrideEvents, slots?_of_entry h,
    Option.getD_some, ← Report.merge_ofBlocks]
  rfl

theorem walk?_eq_none (h : t.entry? f = none) : f.walk? t = none := by
  rw [walk?, h, Option.map_none]

theorem run_walk (t : SymbolTable) (f : MachineFunction) (x : Report × List Event) :
    (f.walk t).run x =
      (f.place t, x.1.merge (.ofFunction t f), x.2 ++ f.placementEvents t) := by
  rw [walk]
  cases h : t.entry? f with
  | none =>
    have hmerge : x.1.merge { Report.zero with skipped := [f.descriptor] } =
        { x.1 with skipped := x.1.skipped ++ [f.descriptor] } := by
      simp [Report.merge, Report.zero]
    rw [walk?_eq_none h, Report.ofFunction_of_none h, placementEvents_of_none h, hmerge,
      place_eq_self h]
    rfl
  | some entry =>
    rw [walk?_eq_some h, Report.ofFunction_of_entry h, placementEvents_of_entry h]
    rfl

theorem run_mapM_walk (t : SymbolTable) (fs : List MachineFunction) (x : Report × List Event) :
    (fs.mapM (walk t)).run x = (fs.map (place t), x.1.merge (.ofFunctions t fs),
      x.2 ++ fs.flatMap (placementEvents t)) := by
  induction fs generalizing x with
  | nil =>
    have hreport : x.1.merge (.ofFunctions t []) = x.1 := x.1.merge_zero
    rw [run_mapM_nil, hreport, List.flatMap_nil, List.append_nil]
    rfl
  | cons f rest ih =>
    rw [run_mapM_cons (run_walk t f x) (ih _), List.map_cons, List.flatMap_cons,
      Report.merge_assoc, List.append_assoc]
    rfl

end MachineFunction

end Functions

/-- **One walk does it all.** The program that a walk leaves behind, its report and its events are
those that are stated apart. -/
theorem Program.walk_eq (t : SymbolTable) (p : Program) :
    p.walk t = (p.place t, Report.ofProgram t p, p.placementEvents t) := by
  rw [walk, MachineFunction.run_mapM_walk, Report.zero_merge, List.nil_append]
  rfl

end CodeMap
