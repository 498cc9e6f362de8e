import CodeMap.Proofs.Placement.Contiguous
import CodeMap.Proofs.Placement.Dependence
import CodeMap.Proofs.Symbol.Coverage

/-! # The segment of a label

A block whose label the table has begins a segment, which goes on up to the next such block. If the
label is given another address, its segment moves there as a whole, and nothing else in the function
moves: the blocks before are placed before the label is looked up, and behind the segment the next
label sets the address anew (`MachineFunction.label_moves_its_segment`).
-/

namespace CodeMap

/-! ## Blocks that move -/

/-- The blocks `cs` are the blocks `bs`, but those from block `k` up to block `j` are moved. -/
structure Block.MovedBetween (k j : Nat) (distance : UInt64) (bs cs : List Block) : Prop where
  before : ∀ i < k, cs[i]? = bs[i]?
  moved : ∀ i, k ≤ i → i < j → cs[i]? = bs[i]?.map (Block.shift distance)
  behind : ∀ i, j ≤ i → cs[i]? = bs[i]?

theorem Block.movedBetween_append (distance : UInt64) (before middle behind : List Block) :
    MovedBetween before.length (before.length + middle.length) distance
      (before ++ (middle ++ behind)) (before ++ (middle.map (shift distance) ++ behind)) where
  before i hi := by rw [List.getElem?_append_left hi, List.getElem?_append_left hi]
  moved i hk hj := by
    rw [List.getElem?_append_right hk, List.getElem?_append_right hk,
      List.getElem?_append_left (by rw [List.length_map]; omega),
      List.getElem?_append_left (by omega), List.getElem?_map]
  behind i hj := by
    have hk : before.length ≤ i := by omega
    rw [List.getElem?_append_right hk, List.getElem?_append_right hk,
      List.getElem?_append_right (by rw [List.length_map]; omega),
      List.getElem?_append_right (by omega), List.length_map]

/-! ## Walks that meet again -/

namespace SymbolTable

variable {t : SymbolTable} {function : Name} {bs : List Block} {b : Block}

/-- From a block with a label on it does not matter where the blocks before stop. -/
theorem map_placed_slots_of_labeled (h : ∀ b ∈ bs.head?, t.contains (b.label function))
    (start other : UInt64) :
    (t.slots function start bs).map Slot.placed = (t.slots function other bs).map Slot.placed := by
  cases bs with
  | nil => rfl
  | cons b rest =>
    have hlabel := h b rfl
    rw [contains_eq_isSome] at hlabel
    obtain ⟨labeled, hlabeled⟩ := Option.isSome_iff_exists.mp hlabel
    rw [slots, slots, hlabeled]
    rfl

/-- The blocks behind a block that have no label lie with it in one piece. -/
theorem map_placed_slots_of_unlabeled {rest : List Block}
    (h : ∀ c ∈ rest, t.get? (c.label function) = none) (start : UInt64) :
    (t.slots function start (b :: rest)).map Slot.placed =
      Block.layOut (Slot.start ⟨b, start, t.get? (b.label function)⟩) (b :: rest) := by
  rw [slots, List.map_cons, (noOverride_of_unlabeled h).map_placed_slots]
  rfl

end SymbolTable

/-! ## Functions -/

namespace MachineFunction

variable {t : SymbolTable} {f : MachineFunction} {label : String} {k : Nat}

/-- Block `k` of the function has the label, and no other block of it has. -/
def LabelsOnly (f : MachineFunction) (label : String) (k : Nat) : Prop :=
  ∀ i, f.blocks[i]?.map (Block.label f.name) = some label ↔ i = k

theorem labelsOnly_iff : f.LabelsOnly label k ↔ k < f.blocks.length ∧
    ∀ i < f.blocks.length, f.blocks[i]?.map (Block.label f.name) = some label ↔ i = k := by
  refine ⟨fun h => ⟨?_, fun i _ => h i⟩, fun ⟨hk, h⟩ i => ?_⟩
  · obtain ⟨b, hb, -⟩ := Option.map_eq_some_iff.mp ((h k).mpr rfl)
    exact (List.getElem?_eq_some_iff.mp hb).1
  · rcases Nat.lt_or_ge i f.blocks.length with hi | hi
    · exact h i hi
    · rw [List.getElem?_eq_none hi]
      exact iff_of_false nofun (by omega)

instance (f : MachineFunction) (label : String) (k : Nat) : Decidable (f.LabelsOnly label k) :=
  decidable_of_iff' _ labelsOnly_iff

/-- The first block behind block `k` whose label the table has; the number of blocks, if there is
none. -/
def nextLabel (t : SymbolTable) (f : MachineFunction) (k : Nat) : Nat :=
  k + 1 + (f.blocks.drop (k + 1)).findIdx fun b => t.contains (b.label f.name)

/-- The function is found where it was if a label is set that its beginning does not depend on. -/
theorem entry?_insert (hentry : label ≠ f.entryLabel)
    (hsymbol : t.contains f.entryLabel ∨ f.mapsto ≠ some label) (a : UInt64) :
    SymbolTable.entry? (t.insert label a) f = t.entry? f := by
  rw [SymbolTable.entry?, SymbolTable.entry?, SymbolTable.get?_insert, if_neg hentry]
  rcases hsymbol with hlabel | hne
  · obtain ⟨entry, h⟩ := SymbolTable.contains_iff.mp hlabel
    rw [h, Option.some_or, Option.some_or]
  · cases hmapsto : f.mapsto with
    | none => rfl
    | some symbol =>
      have hother : label ≠ symbol := fun h => hne (hmapsto.trans (congrArg some h.symm))
      rw [Option.bind_some, SymbolTable.get?_insert, if_neg hother]
      rfl

/-- Blocks before and behind block `k` do not ask for its label. -/
theorem LabelsOnly.get?_insert (h : f.LabelsOnly label k) (t : SymbolTable) (a : UInt64) {c : Block}
    (hc : c ∈ f.blocks.take k ∨ c ∈ f.blocks.drop (k + 1)) :
    t.get? (c.label f.name) = (t.insert label a).get? (c.label f.name) := by
  obtain ⟨i, hi, hget⟩ : ∃ i, i ≠ k ∧ f.blocks[i]? = some c := by
    rcases hc with hc | hc
    · obtain ⟨i, hi, rfl⟩ := List.mem_take_iff_getElem.mp hc
      exact ⟨i, by omega, List.getElem?_eq_getElem _⟩
    · obtain ⟨i, hi, rfl⟩ := List.mem_drop_iff_getElem.mp hc
      exact ⟨k + 1 + i, by omega, List.getElem?_eq_getElem _⟩
  have hne : label ≠ c.label f.name := by
    intro heq
    refine hi ((h i).mp ?_)
    rw [hget, Option.map_some, heq]
  rw [SymbolTable.get?_insert, if_neg hne]

/-! ### A function in parts -/

/-- The blocks behind block `k` up to the next label. -/
def segment (t : SymbolTable) (f : MachineFunction) (k : Nat) : List Block :=
  (f.blocks.drop (k + 1)).takeWhile fun b => !t.contains (b.label f.name)

/-- The blocks behind block `k` from the next label on. -/
def behindSegment (t : SymbolTable) (f : MachineFunction) (k : Nat) : List Block :=
  (f.blocks.drop (k + 1)).dropWhile fun b => !t.contains (b.label f.name)

theorem segment_append (t : SymbolTable) (f : MachineFunction) (k : Nat) :
    f.segment t k ++ f.behindSegment t k = f.blocks.drop (k + 1) := List.takeWhile_append_dropWhile

theorem blocks_eq_append {b : Block} (hb : f.blocks[k]? = some b) (t : SymbolTable) :
    f.blocks = f.blocks.take k ++ b :: (f.segment t k ++ f.behindSegment t k) := by
  obtain ⟨hk, rfl⟩ := List.getElem?_eq_some_iff.mp hb
  rw [segment_append, List.getElem_cons_drop, List.take_append_drop]

theorem nextLabel_eq (t : SymbolTable) (f : MachineFunction) (k : Nat) :
    f.nextLabel t k = k + 1 + (f.segment t k).length := by
  rw [nextLabel, segment, List.takeWhile_eq_take_findIdx_not, List.length_take]
  simp only [Bool.not_not, Nat.min_eq_left List.findIdx_le_length]

theorem get?_of_mem_segment : ∀ c ∈ f.segment t k, t.get? (c.label f.name) = none := by
  intro c hc
  simpa [SymbolTable.contains_eq_isSome] using List.mem_takeWhile_imp hc

theorem contains_of_mem_head?_behindSegment :
    ∀ c ∈ (f.behindSegment t k).head?, t.contains (c.label f.name) := by
  intro c hc
  simpa using Text.not_of_mem_head?_dropWhile hc

/-- A function with a block and its segment apart, in its place. -/
theorem blocks_place_of_split {entry : UInt64} {before middle behind : List Block} {b : Block}
    (hentry : t.entry? f = some entry) (hsplit : f.blocks = before ++ b :: (middle ++ behind))
    (hmiddle : ∀ c ∈ middle, t.get? (c.label f.name) = none)
    (hbehind : ∀ c ∈ behind.head?, t.contains (c.label f.name)) :
    (f.place t).blocks = (t.slots f.name entry before).map Slot.placed ++
      (Block.layOut (Slot.start ⟨b, t.stop f.name entry before, t.get? (b.label f.name)⟩)
        (b :: middle) ++ (t.slots f.name entry behind).map Slot.placed) := by
  rw [place_of_entry hentry, hsplit, ← List.cons_append, SymbolTable.slots_append,
    SymbolTable.slots_append, List.map_append, List.map_append,
    SymbolTable.map_placed_slots_of_unlabeled hmiddle,
    SymbolTable.map_placed_slots_of_labeled hbehind _ entry]

/-- The function in its place when the label of block `k` is set. Only its segment is laid out from
another address than by the table without it. -/
theorem LabelsOnly.blocks_place_insert {entry a : UInt64} {b : Block} (hown : f.LabelsOnly label k)
    (hb : f.blocks[k]? = some b) (hentry : SymbolTable.entry? (t.insert label a) f = some entry) :
    (f.place (t.insert label a)).blocks =
      (t.slots f.name entry (f.blocks.take k)).map Slot.placed ++
        (Block.layOut a (b :: f.segment t k) ++
          (t.slots f.name entry (f.behindSegment t k)).map Slot.placed) := by
  -- Only block `k` asks for the label, so the function falls into the same parts as without it.
  have hbefore : ∀ c ∈ f.blocks.take k,
      t.get? (c.label f.name) = (t.insert label a).get? (c.label f.name) :=
    fun c hc => hown.get?_insert t a (.inl hc)
  have hrest : ∀ c ∈ f.segment t k ++ f.behindSegment t k,
      t.get? (c.label f.name) = (t.insert label a).get? (c.label f.name) :=
    fun c hc => hown.get?_insert t a (.inr (f.segment_append t k ▸ hc))
  obtain ⟨hsegment, hbehind⟩ := List.forall_mem_append.mp hrest
  have hnone : ∀ c ∈ f.segment t k, (t.insert label a).get? (c.label f.name) = none :=
    fun c hc => (hsegment c hc).symm.trans (get?_of_mem_segment c hc)
  have hsome : ∀ c ∈ (f.behindSegment t k).head?,
      (t.insert label a).contains (c.label f.name) := by
    intro c hc
    rw [SymbolTable.contains_eq_isSome, ← hbehind c (List.mem_of_mem_head? hc),
      ← SymbolTable.contains_eq_isSome]
    exact contains_of_mem_head?_behindSegment c hc
  have hlabel : (t.insert label a).get? (b.label f.name) = some a := by
    obtain ⟨c, hc, hlabel⟩ := Option.map_eq_some_iff.mp ((hown k).mpr rfl)
    obtain rfl := Option.some.inj (hb.symm.trans hc)
    rw [SymbolTable.get?_insert, if_pos hlabel.symm]
  rw [blocks_place_of_split hentry (blocks_eq_append hb t) hnone hsome, hlabel,
    SymbolTable.slots_congr hbefore, SymbolTable.slots_congr hbehind]
  rfl

/-- **A label acts on its own segment.** Let a block have a label that is no other block's, and that
the beginning of the function does not depend on. If this label is set to an address, whether or not
it had one, the block and those behind it up to the next label move by one distance, from where the
block was to this address, modulo `2 ^ 64`. All other blocks stay where they were. -/
theorem label_moves_its_segment (hresolves : t.resolves f) (hown : f.LabelsOnly label k)
    (hentry : label ≠ f.entryLabel) (hsymbol : t.contains f.entryLabel ∨ f.mapsto ≠ some label)
    (a : UInt64) :
    ∃ start, (f.place t).blocks[k]?.bind Block.address = some start ∧
      Block.MovedBetween k (f.nextLabel t k) (a - start) (f.place t).blocks
        (f.place (t.insert label a)).blocks ∧
      ∀ b ∈ (f.place t).blocks, b.isPlaced := by
  obtain ⟨entry, ht⟩ := Option.isSome_iff_exists.mp hresolves
  obtain ⟨b, hb, -⟩ := Option.map_eq_some_iff.mp ((hown k).mpr rfl)
  -- The parts before and behind are the same lists in both placements. The part between is laid out
  -- from `start` in the one and from `a` in the other.
  let start := Slot.start ⟨b, t.stop f.name entry (f.blocks.take k), t.get? (b.label f.name)⟩
  let before := (t.slots f.name entry (f.blocks.take k)).map Slot.placed
  let middle := Block.layOut start (b :: f.segment t k)
  let behind := (t.slots f.name entry (f.behindSegment t k)).map Slot.placed
  have hold : (f.place t).blocks = before ++ (middle ++ behind) :=
    blocks_place_of_split ht (blocks_eq_append hb t) get?_of_mem_segment
      contains_of_mem_head?_behindSegment
  have hmiddle : middle.map (Block.shift (a - start)) = Block.layOut a (b :: f.segment t k) := by
    rw [← Block.layOut_add, UInt64.add_comm, UInt64.sub_add_cancel]
  have hnew : (f.place (t.insert label a)).blocks =
      before ++ (middle.map (Block.shift (a - start)) ++ behind) := by
    rw [hmiddle]
    exact hown.blocks_place_insert hb ((entry?_insert hentry hsymbol a).trans ht)
  have hk : before.length = k := by
    have hlt := (List.getElem?_eq_some_iff.mp hb).1
    rw [List.length_map, SymbolTable.length_slots, List.length_take, Nat.min_eq_left hlt.le]
  have hj : before.length + middle.length = f.nextLabel t k := by
    rw [hk, Block.length_layOut, nextLabel_eq, List.length_cons]
    omega
  refine ⟨start, ?_, ?_, isPlaced_of_mem_place hresolves⟩
  · rw [hold, List.getElem?_append_right hk.le, hk, Nat.sub_self]
    rfl
  · rw [hold, hnew, ← hj, ← hk]
    exact Block.movedBetween_append _ before middle behind

/-- A segment of three blocks, the second of them empty, is moved over the end of the address
space. The blocks before and behind stay. -/
theorem label_moves_its_segment_over_zero :
    let t : SymbolTable := .ofPairs [("f", 0x1000), (".LBB3_4", 0x2000)]
    let f : MachineFunction := .ofBlocks (.number 3) (some "f")
      [.ofSizes 0 [4, 4], .ofSizes 1 [8], .ofSizes 2 [], .ofSizes 3 [4], .ofSizes 4 [4]]
    let a : UInt64 := 0xFFFFFFFFFFFFFFFC
    t.resolves f ∧ f.LabelsOnly ".LBB3_1" 1 ∧ ".LBB3_1" ≠ f.entryLabel ∧
      f.mapsto ≠ some ".LBB3_1" ∧ f.nextLabel t 1 = 4 ∧
      Block.MovedBetween 1 4 (a - 0x1008) (f.place t).blocks
        (f.place (t.insert ".LBB3_1" a)).blocks ∧
      (f.place t).blocks.map Block.address =
        [some 0x1000, some 0x1008, some 0x1010, some 0x1010, some 0x2000] ∧
      (f.place (t.insert ".LBB3_1" a)).blocks.map Block.address =
        [some 0x1000, some a, some 4, some 4, some 0x2000] := by
  intro t f a
  have hresolves : t.resolves f := by decide +kernel
  have hown : f.LabelsOnly ".LBB3_1" 1 := by decide +kernel
  have hentry : ".LBB3_1" ≠ f.entryLabel := by decide +kernel
  have hsymbol : f.mapsto ≠ some ".LBB3_1" := by decide +kernel
  have hnext : f.nextLabel t 1 = 4 := by decide +kernel
  obtain ⟨start, hstart, hmoved, -⟩ :=
    label_moves_its_segment hresolves hown hentry (.inr hsymbol) a
  obtain rfl : start = 0x1008 := Option.some.inj (hstart.symm.trans (by decide +kernel))
  refine ⟨hresolves, hown, hentry, hsymbol, hnext, hnext ▸ hmoved, ?_, ?_⟩
  · decide +kernel
  · decide +kernel

end MachineFunction

end CodeMap
