import CodeMap.Proofs.Placement.AddressLaw

/-! # Blocks in one piece

A walk over the blocks of a function may be interrupted between any two of them: what is behind
depends on the address where the blocks before stop, and on nothing else
(`SymbolTable.slots_append`). Blocks of which no label overrides the inferred address lie in one
piece (`Block.layOut`), as do their instructions across the blocks, and the whole piece moves with
the address where it begins (`Block.layOut_add`).
-/

namespace CodeMap

/-! ## Instructions -/

namespace Instruction

variable {start : UInt64} {is js : List Instruction}

theorem layOut_append :
    layOut start (is ++ js) = layOut start is ++ layOut (start + UInt64.ofNat (bytes is)) js := by
  induction is generalizing start with
  | nil => simp [layOut]
  | cons i rest ih =>
    rw [List.cons_append, layOut, ih, layOut, List.cons_append, bytes_cons, UInt64.ofNat_add,
      UInt64.ofNat_toNat, UInt64.add_assoc]

theorem isSome_address_of_mem_layOut : ∀ i ∈ layOut start is, i.address.isSome := by
  induction is generalizing start with
  | nil => exact nofun
  | cons i rest ih => exact List.forall_mem_cons.mpr ⟨rfl, ih⟩

/-- The instruction with its address moved by a distance, modulo `2 ^ 64`. -/
def shift (distance : UInt64) (i : Instruction) : Instruction :=
  { i with address := i.address.map (· + distance) }

/-- Instructions move with the address where they begin. -/
theorem layOut_add (start distance : UInt64) (is : List Instruction) :
    layOut (start + distance) is = (layOut start is).map (shift distance) := by
  induction is generalizing start with
  | nil => rfl
  | cons i rest ih =>
    have hnext : start + distance + i.size = start + i.size + distance := by ac_rfl
    rw [layOut, hnext, ih]
    rfl

end Instruction

/-! ## Blocks -/

namespace Block

variable {start : UInt64}

theorem isPlaced_placeAt (start : UInt64) (b : Block) : (b.placeAt start).isPlaced := by
  rw [isPlaced, Bool.and_eq_true, List.all_eq_true]
  exact ⟨rfl, Instruction.isSome_address_of_mem_layOut⟩

/-- Blocks laid out one after another, whatever labels they have. -/
def layOut (start : UInt64) : List Block → List Block
  | [] => []
  | b :: rest => b.placeAt start :: layOut (start + b.extent) rest

@[simp] theorem length_layOut (start : UInt64) (bs : List Block) :
    (layOut start bs).length = bs.length := by
  induction bs generalizing start with
  | nil => rfl
  | cons b rest ih => rw [layOut, List.length_cons, ih, List.length_cons]

theorem getElem?_layOut (start : UInt64) (bs : List Block) (i : Nat) :
    (layOut start bs)[i]? =
      bs[i]?.map (placeAt (start + UInt64.ofNat (bytes (bs.take i)))) := by
  induction bs generalizing start i with
  | nil => rfl
  | cons b rest ih =>
    cases i with
    | zero => simp [layOut]
    | succ i =>
      rw [layOut, List.getElem?_cons_succ, List.getElem?_cons_succ, ih, List.take_succ_cons,
        bytes_cons, UInt64.ofNat_add, extent_eq, UInt64.add_assoc]

/-- The instructions of such blocks are laid out one after another across the blocks. -/
theorem flatMap_instructions_layOut (start : UInt64) (bs : List Block) :
    (layOut start bs).flatMap instructions =
      Instruction.layOut start (bs.flatMap instructions) := by
  induction bs generalizing start with
  | nil => rfl
  | cons b rest ih =>
    rw [layOut, List.flatMap_cons, ih, List.flatMap_cons, Instruction.layOut_append, extent_eq]
    rfl

/-- The block with its address and those of its instructions moved by a distance. -/
def shift (distance : UInt64) (b : Block) : Block :=
  { b with
    address := b.address.map (· + distance)
    instructions := b.instructions.map (Instruction.shift distance) }

theorem placeAt_add (start distance : UInt64) (b : Block) :
    b.placeAt (start + distance) = (b.placeAt start).shift distance := by
  rw [placeAt, Instruction.layOut_add]
  rfl

/-- Blocks move with the address where they begin. -/
theorem layOut_add (start distance : UInt64) (bs : List Block) :
    layOut (start + distance) bs = (layOut start bs).map (shift distance) := by
  induction bs generalizing start with
  | nil => rfl
  | cons b rest ih =>
    have hnext : start + distance + b.extent = start + b.extent + distance := by ac_rfl
    rw [layOut, placeAt_add, hnext, ih, layOut, List.map_cons]

end Block

/-! ## Slots -/

theorem Slot.start_eq_inferred {s : Slot} (h : s.override? = none) : s.start = s.inferred := by
  rw [override?] at h
  rw [start]
  cases hlabel : s.labeled with
  | none => rfl
  | some labeled => simpa [hlabel] using h

namespace SymbolTable

variable {t : SymbolTable} {function : Name} {start : UInt64} {bs : List Block}

/-- The address where the last of the blocks stops. -/
def stop (t : SymbolTable) (function : Name) (start : UInt64) : List Block → UInt64
  | [] => start
  | b :: rest => t.stop function (Slot.stop ⟨b, start, t.get? (b.label function)⟩) rest

theorem slots_append (t : SymbolTable) (function : Name) (start : UInt64) (bs cs : List Block) :
    t.slots function start (bs ++ cs) =
      t.slots function start bs ++ t.slots function (t.stop function start bs) cs := by
  induction bs generalizing start with
  | nil => rfl
  | cons b rest ih => rw [List.cons_append, slots, ih, slots, stop, List.cons_append]

/-- A slot holds one of the blocks and the address of its label. -/
theorem labeled_of_mem_slots {s : Slot} (h : s ∈ t.slots function start bs) :
    s.block ∈ bs ∧ s.labeled = t.get? (s.block.label function) := by
  induction bs generalizing start with
  | nil => cases h
  | cons b rest ih =>
    rcases List.mem_cons.mp h with rfl | h
    · exact ⟨List.mem_cons_self, rfl⟩
    · exact ⟨List.mem_cons_of_mem _ (ih h).1, (ih h).2⟩

/-- The labels do not override anything: each of them lies where its block is inferred to lie. -/
def NoOverride (t : SymbolTable) (function : Name) (start : UInt64) (bs : List Block) : Prop :=
  ∀ s ∈ t.slots function start bs, s.override? = none

theorem noOverride_cons {b : Block} {rest : List Block} :
    t.NoOverride function start (b :: rest) ↔
      (t.get? (b.label function)).filter (· != start) = none ∧
        t.NoOverride function (start + b.extent) rest := by
  rw [NoOverride, slots, List.forall_mem_cons]
  refine and_congr_right fun h => ?_
  rw [Slot.stop, Slot.start_eq_inferred h]
  rfl

/-- Blocks without labels in the table have nothing to override. -/
theorem noOverride_of_unlabeled (h : ∀ b ∈ bs, t.get? (b.label function) = none) :
    t.NoOverride function start bs := by
  intro s hs
  obtain ⟨hmem, hlabel⟩ := labeled_of_mem_slots hs
  rw [Slot.override?, hlabel, h _ hmem]
  rfl

/-- Without an override the blocks lie in one piece. -/
theorem NoOverride.map_placed_slots (h : t.NoOverride function start bs) :
    (t.slots function start bs).map Slot.placed = Block.layOut start bs := by
  induction bs generalizing start with
  | nil => rfl
  | cons b rest ih =>
    have hstart : Slot.start ⟨b, start, t.get? (b.label function)⟩ = start :=
      Slot.start_eq_inferred (List.forall_mem_cons.mp h).1
    rw [slots, List.map_cons, Slot.placed, Slot.stop, hstart, ih (noOverride_cons.mp h).2,
      Block.layOut]

end SymbolTable

/-! ## Functions -/

/-- Of a function that the table resolves every part is placed. -/
theorem MachineFunction.isPlaced_of_mem_place {t : SymbolTable} {f : MachineFunction}
    (h : t.resolves f) : ∀ b ∈ (f.place t).blocks, b.isPlaced := by
  obtain ⟨entry, hentry⟩ := Option.isSome_iff_exists.mp h
  rw [place_of_entry hentry]
  intro b hb
  obtain ⟨s, -, rfl⟩ := List.mem_map.mp hb
  exact s.block.isPlaced_placeAt s.start

end CodeMap
