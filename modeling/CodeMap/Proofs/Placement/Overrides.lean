import CodeMap.Proofs.Placement.Walk

/-! # Overrides mark gaps

While a function is placed, a block is reported if its label is not where the blocks before it end.
Here the report of a block is stated by what becomes of the function (`MachineFunction.gapEvent?`):
the inferred address is where the function begins or where the block before stops as it was placed.
If nothing is reported, no label of a block has any effect, and the function lies in one piece from
its beginning on (`MachineFunction.overrides_mark_gaps`).
-/

namespace CodeMap

@[simp] theorem Instruction.bytes_layOut (start : UInt64) (is : List Instruction) :
    bytes (layOut start is) = bytes is := by
  induction is generalizing start with
  | nil => rfl
  | cons i rest ih => rw [layOut, bytes_cons, ih, bytes_cons]

/-- The address behind the last instruction of a block that is placed. -/
def Block.endAddress (b : Block) : Option UInt64 :=
  b.address.map (· + UInt64.ofNat (Instruction.bytes b.instructions))

theorem Slot.endAddress_placed (s : Slot) : s.placed.endAddress = some s.stop := by
  show some (s.start + UInt64.ofNat (Instruction.bytes (Instruction.layOut _ _))) = _
  rw [Instruction.bytes_layOut, stop, Block.extent_eq]

/-! ## Tables with fewer labels -/

namespace SymbolTable

variable {t : SymbolTable} {labels : List String} {function : Name} {start : UInt64}
  {bs : List Block}

/-- The table with some of its labels only. -/
def restrict (t : SymbolTable) (labels : List String) : SymbolTable :=
  ⟨t.addresses.filter fun label _ => labels.contains label⟩

theorem get?_restrict (t : SymbolTable) (labels : List String) (label : String) :
    (t.restrict labels).get? label = if label ∈ labels then t.get? label else none := by
  rw [get?, restrict, Std.ExtTreeMap.getElem?_filter', get?]
  split
  · next h => cases t.addresses[label]? <;> simp [h]
  · next h => cases t.addresses[label]? <;> simp [h]

/-- What is not overridden is not overridden by fewer labels. -/
theorem NoOverride.restrict (h : t.NoOverride function start bs) (labels : List String) :
    (t.restrict labels).NoOverride function start bs := by
  induction bs generalizing start with
  | nil => exact nofun
  | cons b rest ih =>
    obtain ⟨hlabel, hrest⟩ := noOverride_cons.mp h
    refine noOverride_cons.mpr ⟨?_, ih hrest⟩
    rw [get?_restrict]
    split
    · exact hlabel
    · rfl

end SymbolTable

namespace MachineFunction

variable {t : SymbolTable} {f : MachineFunction} {entry : UInt64}

/-! ## Events block by block -/

/-- The address where block `i` is inferred to lie: where the function begins or, behind another
block, where that block ends in its place. -/
def inferredAt? (t : SymbolTable) (f : MachineFunction) : Nat → Option UInt64
  | 0 => t.entry? f
  | i + 1 => (f.place t).blocks[i]?.bind Block.endAddress

/-- The event of block `i`: the table has its label at another address than the inferred one. -/
def gapEvent? (t : SymbolTable) (f : MachineFunction) (i : Nat) : Option Event := do
  let b ← f.blocks[i]?
  let inferred ← f.inferredAt? t i
  let labeled ← t.get? (b.label f.name)
  if labeled = inferred then none
  else some (.labelOverrides f.name.text b.name.text inferred labeled)

theorem gapEvent?_of_inferred {i : Nat} {b : Block} {inferred : UInt64} (hb : f.blocks[i]? = some b)
    (hinferred : f.inferredAt? t i = some inferred) :
    f.gapEvent? t i = (t.get? (b.label f.name)).bind fun labeled =>
      if labeled = inferred then none
      else some (.labelOverrides f.name.text b.name.text inferred labeled) := by
  rw [gapEvent?, hb, hinferred]
  rfl

theorem gapEvent?_eq_some_iff {i : Nat} {e : Event} : f.gapEvent? t i = some e ↔
    ∃ b inferred labeled, f.blocks[i]? = some b ∧ f.inferredAt? t i = some inferred ∧
      t.get? (b.label f.name) = some labeled ∧ labeled ≠ inferred ∧
      e = .labelOverrides f.name.text b.name.text inferred labeled := by
  constructor
  · intro h
    obtain ⟨b, hb, h⟩ := Option.bind_eq_some_iff.mp h
    obtain ⟨inferred, hinferred, h⟩ := Option.bind_eq_some_iff.mp h
    obtain ⟨labeled, hlabeled, h⟩ := Option.bind_eq_some_iff.mp h
    split at h
    · cases h
    · next hne =>
      exact ⟨b, inferred, labeled, hb, hinferred, hlabeled, hne, (Option.some.inj h).symm⟩
  · rintro ⟨b, inferred, labeled, hb, hinferred, hlabeled, hne, rfl⟩
    rw [gapEvent?_of_inferred hb hinferred, hlabeled, Option.bind_some, if_neg hne]

theorem inferredAt?_eq (h : t.entry? f = some entry) {i : Nat} {s : Slot}
    (hs : (t.slots f.name entry f.blocks)[i]? = some s) : f.inferredAt? t i = some s.inferred := by
  cases i with
  | zero => rw [SymbolTable.getElem?_slots_zero hs, inferredAt?, h]
  | succ i =>
    obtain ⟨before, hbefore⟩ : ∃ before, (t.slots f.name entry f.blocks)[i]? = some before :=
      ⟨_, List.getElem?_eq_getElem (Nat.lt_of_succ_lt (List.getElem?_eq_some_iff.mp hs).1)⟩
    rw [inferredAt?, place_of_entry h, List.getElem?_map, hbefore, Option.map_some,
      Option.bind_some, Slot.endAddress_placed, SymbolTable.inferred_eq_stop hbefore hs]

/-- The event of a block is the event of its slot. -/
theorem gapEvent?_eq (h : t.entry? f = some entry) (i : Nat) :
    f.gapEvent? t i = (t.slots f.name entry f.blocks)[i]?.bind (Slot.event? f.name) := by
  cases hb : f.blocks[i]? with
  | none =>
    have hs : (t.slots f.name entry f.blocks)[i]? = none := by
      rw [List.getElem?_eq_none_iff, SymbolTable.length_slots]
      exact List.getElem?_eq_none_iff.mp hb
    rw [hs, gapEvent?, hb]
    rfl
  | some b =>
    obtain ⟨inferred, hs⟩ := t.getElem?_slots f.name entry hb
    rw [hs, gapEvent?_of_inferred hb (inferredAt?_eq h hs), Option.bind_some, Slot.event?_eq]

/-- The events of a function come block by block, in order. -/
theorem overrideEvents_eq (h : t.entry? f = some entry) :
    f.overrideEvents t = (List.range f.blocks.length).filterMap (f.gapEvent? t) := by
  let slots := t.slots f.name entry f.blocks
  -- Every slot is found at its index: to go through the indices is to go through the slots.
  have hrange : (List.range f.blocks.length).map (fun i => slots[i]?) = slots.map some := by
    apply List.ext_getElem
    · rw [List.length_map, List.length_range, List.length_map, SymbolTable.length_slots]
    · intro i _ hi
      rw [List.length_map] at hi
      rw [List.getElem_map, List.getElem_map, List.getElem_range, List.getElem?_eq_getElem hi]
  calc f.overrideEvents t
      = slots.filterMap (Slot.event? f.name) := by
        rw [overrideEvents, slots?_of_entry h, Option.getD_some]
    _ = (slots.map some).filterMap (Option.bind · (Slot.event? f.name)) := by
        rw [List.filterMap_map]
        rfl
    _ = (List.range f.blocks.length).filterMap (f.gapEvent? t) := by
        rw [← hrange, List.filterMap_map]
        exact congrArg (List.filterMap · _) (funext fun i => (gapEvent?_eq h i).symm)

/-! ## Functions without gaps -/

/-- The function `g` is the function `f` in one piece from `entry` on, and the labels of its blocks
that the table has agree with that. -/
structure InOnePiece (t : SymbolTable) (entry : UInt64) (f g : MachineFunction) : Prop where
  label : ∀ i b, f.blocks[i]? = some b → ∀ labeled, t.get? (b.label f.name) = some labeled →
    labeled = entry + UInt64.ofNat (Block.bytes (f.blocks.take i))
  block : ∀ i b, g.blocks[i]? = some b →
    b.address = some (entry + UInt64.ofNat (Block.bytes (f.blocks.take i)))
  instructions : Consecutive entry (f.blocks.flatMap Block.instructions)
    (g.blocks.flatMap Block.instructions)

theorem overrideEvents_eq_nil_iff (h : t.entry? f = some entry) :
    f.overrideEvents t = [] ↔ t.NoOverride f.name entry f.blocks := by
  rw [overrideEvents, slots?_of_entry h, Option.getD_some, List.filterMap_eq_nil_iff]
  simp only [Slot.event?, Option.map_eq_none_iff]
  rfl

theorem place_of_noOverride (h : t.entry? f = some entry)
    (hno : t.NoOverride f.name entry f.blocks) :
    f.place t = { f with blocks := Block.layOut entry f.blocks } := by
  rw [place_of_entry h, hno.map_placed_slots]

theorem inOnePiece_place (h : t.entry? f = some entry)
    (hno : t.NoOverride f.name entry f.blocks) : InOnePiece t entry f (f.place t) where
  label i b hb labeled hlabeled := by
    obtain ⟨inferred, hs⟩ := t.getElem?_slots f.name entry hb
    have hblock : ((t.slots f.name entry f.blocks).map Slot.placed)[i]? =
        some (b.placeAt labeled) := by
      rw [List.getElem?_map, hs, hlabeled]
      rfl
    rw [hno.map_placed_slots, Block.getElem?_layOut, hb, Option.map_some] at hblock
    exact Option.some.inj (congrArg Block.address (Option.some.inj hblock)).symm
  block i b hb := by
    rw [place_of_noOverride h hno, Block.getElem?_layOut] at hb
    obtain ⟨c, -, rfl⟩ := Option.map_eq_some_iff.mp hb
    rfl
  instructions k i hi := by
    rw [place_of_noOverride h hno, Block.flatMap_instructions_layOut, Instruction.getElem?_layOut,
      hi]
    exact ⟨_, rfl, rfl⟩

/-- A function is found by its entry label and its symbol alone. -/
theorem entry?_restrict (t : SymbolTable) (f : MachineFunction) :
    SymbolTable.entry? (t.restrict (f.entryLabel :: f.mapsto.toList)) f = t.entry? f := by
  have hlabel : f.entryLabel ∈ f.entryLabel :: f.mapsto.toList := List.mem_cons_self
  rw [SymbolTable.entry?, SymbolTable.entry?, SymbolTable.get?_restrict, if_pos hlabel]
  cases hmapsto : f.mapsto with
  | none => rfl
  | some symbol =>
    have hsymbol : symbol ∈ f.entryLabel :: (some symbol).toList :=
      List.mem_cons_of_mem _ List.mem_cons_self
    rw [Option.bind_some, Option.bind_some, SymbolTable.get?_restrict, if_pos hsymbol]

/-- **Overrides mark the gaps.** Of a function that the table resolves, a block is reported if the
table has its label at another address than the one inferred: where the function begins for the
first block, and where the block before ends for any other. The events come in the order of the
blocks and have both addresses. If there is none, the table might as well have no label of a block:
the entry label and the symbol place the function alike, and it lies in one piece from its beginning
on. -/
theorem overrides_mark_gaps (h : t.entry? f = some entry) :
    let events := f.placementEvents t
    let u := t.restrict (f.entryLabel :: f.mapsto.toList)
    (∃ report, f.walk? t = some (f.place t, report, events)) ∧
      events = (List.range f.blocks.length).filterMap (f.gapEvent? t) ∧
      (∀ i e, f.gapEvent? t i = some e ↔
        ∃ b inferred labeled, f.blocks[i]? = some b ∧ f.inferredAt? t i = some inferred ∧
          t.get? (b.label f.name) = some labeled ∧ labeled ≠ inferred ∧
          e = .labelOverrides f.name.text b.name.text inferred labeled) ∧
      (∀ function block inferred labeled,
        let e := Event.labelOverrides function block inferred labeled
        e.level = .debug ∧ e.message = "Block label overrides inferred address" ∧
          e.fields = [("function", .text function), ("block", .text block),
            ("inferred", .text (Text.hexText inferred)),
            ("labeled", .text (Text.hexText labeled))]) ∧
      (events = [] → u.entry? f = some entry ∧ f.place t = f.place u ∧
        InOnePiece t entry f (f.place t)) := by
  intro events u
  have hevents : events = f.overrideEvents t := placementEvents_of_entry h
  have hu : u.entry? f = some entry := (entry?_restrict t f).trans h
  refine ⟨⟨_, hevents ▸ walk?_eq_some h⟩, hevents ▸ overrideEvents_eq h,
    fun _ _ => gapEvent?_eq_some_iff, fun _ _ _ _ => ⟨rfl, rfl, rfl⟩, fun hnil => ?_⟩
  have hno := (overrideEvents_eq_nil_iff h).mp (hevents ▸ hnil)
  refine ⟨hu, ?_, inOnePiece_place h hno⟩
  rw [place_of_noOverride h hno, place_of_noOverride hu (hno.restrict _)]

/-- A function with two gaps, the first of them over the end of the address space. In the other
function the block `0` is not the first one, and the symbol is the label of a block. -/
theorem overrides_mark_gaps_over_zero :
    let t : SymbolTable := .ofPairs [("g", 0x2000), (".LBB4_1", 0xFFFFFFFFFFFFFFFC), (".LBB4_2", 8),
      (".LBB3_0", 0x1000), (".LBB3_1", 0x1000), (".LBB3_2", 0x1004)]
    let f : MachineFunction := .ofBlocks (.number 3) (some ".LBB3_2")
      [.ofSizes 1 [], .ofSizes 0 [4], .ofSizes 2 [8]]
    let g : MachineFunction := .ofBlocks (.number 4) (some "g")
      [.ofSizes 0 [4, 4], .ofSizes 1 [8], .ofSizes 2 [4], .ofSizes 3 [2]]
    let u := t.restrict (f.entryLabel :: f.mapsto.toList)
    t.entry? f = some 0x1000 ∧ t.entry? g = some 0x2000 ∧
      g.placementEvents t = (List.range 4).filterMap (g.gapEvent? t) ∧
      g.placementEvents t = [.labelOverrides "4" "1" 0x2008 0xFFFFFFFFFFFFFFFC,
        .labelOverrides "4" "2" 4 8] ∧
      f.placementEvents t = [] ∧ f.place t = f.place u ∧ InOnePiece t 0x1000 f (f.place t) ∧
      u.get? ".LBB3_1" = none := by
  intro t f g u
  have hf : t.entry? f = some 0x1000 := by decide +kernel
  have hg : t.entry? g = some 0x2000 := by decide +kernel
  have hnil : f.placementEvents t = [] := by decide +kernel
  obtain ⟨-, hevents, -⟩ := overrides_mark_gaps hg
  obtain ⟨-, -, -, -, hpiece⟩ := overrides_mark_gaps hf
  obtain ⟨-, hplace, hone⟩ := hpiece hnil
  exact ⟨hf, hg, hevents, by decide +kernel, hnil, hplace, hone, by decide +kernel⟩

end MachineFunction

end CodeMap
