import CodeMap.Proofs.Placement.AddressLaw
import CodeMap.Proofs.Symbol.LastRows
import CodeMap.Proofs.Symbol.WrittenDump

/-! # Stretches between labels

The addresses of a dump have eight digits, so a function of at most `2 ^ 64 - 2 ^ 32` bytes is laid
out without going over the end of the address space, wherever its labels are. The bound is carried
from block to block (`Block.Fits`): a label puts the next block to a low address, and anything else
moves it by the bytes of a block. Between labels, then, the instructions tile an interval
(`Block.Tiles`), and no byte belongs to two of them.
-/

namespace CodeMap

/-! ## Tilings -/

namespace Instruction

/-- The byte is one of the instruction, from its address up to its end. -/
def Covers (i : Instruction) (byte : Nat) : Prop :=
  ∃ a stop, i.address = some a ∧ i.endAddress = some stop ∧ a.toNat ≤ byte ∧ byte < stop.toNat

/-- The instruction ends within the address space: its size is added to its address without a
wrap. -/
def EndsInside (i : Instruction) : Prop :=
  ∃ a stop, i.address = some a ∧ i.endAddress = some stop ∧ stop.toNat = a.toNat + i.size.toNat

/-- Placed instructions lie one behind the other from one address to another. -/
inductive Tiles : (start stop : UInt64) → List Instruction → Prop where
  | nil (a : UInt64) : Tiles a a []
  | cons {i : Instruction} {rest : List Instruction} {a next stop : UInt64}
    (address_eq : i.address = some a) (end_eq : i.endAddress = some next)
    (exact : next.toNat = a.toNat + i.size.toNat) (tail : Tiles next stop rest) :
    Tiles a stop (i :: rest)

/-- Of an interval every byte belongs to one instruction, and of the rest none to any. -/
structure Partition (start stop : UInt64) (is : List Instruction) : Prop where
  covered : ∀ byte : Nat, (∃ i ∈ is, i.Covers byte) ↔ start.toNat ≤ byte ∧ byte < stop.toNat
  disjoint : is.Pairwise fun i j => ∀ byte, i.Covers byte → ¬j.Covers byte

namespace Tiles

variable {is js : List Instruction} {start middle stop : UInt64}

theorem append (h : Tiles start middle is) (k : Tiles middle stop js) :
    Tiles start stop (is ++ js) := by
  induction h with
  | nil => exact k
  | cons address_eq end_eq exact _ ih => exact .cons address_eq end_eq exact (ih k)

theorem le (h : Tiles start stop is) : start.toNat ≤ stop.toNat := by
  induction h with
  | nil => exact Nat.le_refl _
  | cons _ _ exact _ ih => omega

theorem endsInside (h : Tiles start stop is) : ∀ i ∈ is, i.EndsInside := by
  induction h with
  | nil => exact nofun
  | @cons i rest a next stop address_eq end_eq exact _ ih =>
    exact List.forall_mem_cons.mpr ⟨⟨a, next, address_eq, end_eq, exact⟩, ih⟩

theorem covered (h : Tiles start stop is) (byte : Nat) :
    (∃ i ∈ is, i.Covers byte) ↔ start.toNat ≤ byte ∧ byte < stop.toNat := by
  induction h with
  | nil a => exact iff_of_false nofun fun h => Nat.not_lt.mpr h.1 h.2
  | @cons i rest a next stop address_eq end_eq exact hrest ih =>
    have hcovers : i.Covers byte ↔ a.toNat ≤ byte ∧ byte < next.toNat := by
      simp [Covers, address_eq, end_eq]
    have hle := hrest.le
    rw [List.exists_mem_cons_iff, hcovers, ih]
    omega

theorem disjoint (h : Tiles start stop is) :
    is.Pairwise fun i j => ∀ byte, i.Covers byte → ¬j.Covers byte := by
  induction h with
  | nil => exact .nil
  | @cons i rest a next stop address_eq end_eq exact hrest ih =>
    refine List.pairwise_cons.mpr ⟨fun j hj byte hi hcovers => ?_, ih⟩
    obtain ⟨-, next', -, hend, -, hlt⟩ := hi
    obtain rfl := Option.some.inj (end_eq.symm.trans hend)
    exact Nat.not_lt.mpr ((hrest.covered byte).mp ⟨j, hj, hcovers⟩).1 hlt

theorem partition (h : Tiles start stop is) : Partition start stop is := ⟨h.covered, h.disjoint⟩

end Tiles

end Instruction

namespace Block

/-- Placed blocks lie one behind the other from one address to another, with their instructions. -/
inductive Tiles : (start stop : UInt64) → List Block → Prop where
  | nil (a : UInt64) : Tiles a a []
  | cons {b : Block} {rest : List Block} {a next stop : UInt64} (address_eq : b.address = some a)
    (instructions : Instruction.Tiles a next b.instructions) (tail : Tiles next stop rest) :
    Tiles a stop (b :: rest)

/-- The instructions of blocks that lie one behind the other do so across the blocks. -/
theorem Tiles.instructions {start stop : UInt64} {bs : List Block} (h : Tiles start stop bs) :
    Instruction.Tiles start stop (bs.flatMap Block.instructions) := by
  induction h with
  | nil => exact .nil _
  | cons _ instructions _ ih => exact instructions.append ih

/-- Blocks laid out from the address on end within the address space. -/
def Fits (address : UInt64) (bs : List Block) : Prop := address.toNat + bytes bs < 2 ^ 64

theorem bytes_take_add_drop (bs : List Block) (n : Nat) :
    bytes (bs.take n) + bytes (bs.drop n) = bytes bs := by
  rw [← bytes_append, List.take_append_drop]

end Block

/-! ## One block -/

theorem Instruction.tiles_layOut {start : UInt64} {is : List Instruction}
    (h : start.toNat + bytes is < 2 ^ 64) :
    Tiles start (start + UInt64.ofNat (bytes is)) (layOut start is) := by
  induction is generalizing start with
  | nil =>
    have hstop : start + UInt64.ofNat (bytes []) = start := by simp
    rw [hstop]
    exact .nil start
  | cons i rest ih =>
    rw [bytes_cons] at h ⊢
    have hnext : (start + i.size).toNat = start.toNat + i.size.toNat := by
      rw [UInt64.toNat_add, Nat.mod_eq_of_lt (by omega)]
    rw [UInt64.ofNat_add, UInt64.ofNat_toNat, ← UInt64.add_assoc]
    have hend : { i with address := some start }.endAddress = some (start + i.size) := rfl
    exact .cons rfl hend hnext (ih (by omega))

namespace Slot

variable {s : Slot} {rest : List Block}

theorem tiles_placed (h : Block.Fits s.start (s.block :: rest)) :
    Instruction.Tiles s.start s.stop s.placed.instructions := by
  rw [Block.Fits, Block.bytes_cons] at h
  rw [stop, Block.extent_eq]
  exact Instruction.tiles_layOut (by omega)

theorem fits_stop (h : Block.Fits s.start (s.block :: rest)) : Block.Fits s.stop rest := by
  rw [Block.Fits, Block.bytes_cons] at h
  rw [Block.Fits, stop, Block.extent_eq, UInt64.toNat_add, UInt64.toNat_ofNat']
  omega

end Slot

/-! ## Blocks of a function -/

namespace SymbolTable

/-- All addresses have at most eight digits. -/
def IsLow (t : SymbolTable) : Prop := ∀ label a, t.get? label = some a → a.toNat < 2 ^ 32

theorem isLow_ofLines (sections lines : List String) : (ofLines sections lines).IsLow := by
  intro label a h
  obtain ⟨-, ⟨s, -, hrow⟩, -⟩ := get?_ofLines.mp h
  exact (SymbolRow.isWritable_of_parse? hrow).address

variable {t : SymbolTable} {function : Name} {cursor : UInt64} {b : Block} {rest bs : List Block}

/-- A label moves a block to where it fits. -/
theorem IsLow.fits_start (ht : t.IsLow) (hbytes : Block.bytes (b :: rest) ≤ 2 ^ 64 - 2 ^ 32)
    (h : Block.Fits cursor (b :: rest)) :
    Block.Fits (Slot.start ⟨b, cursor, t.get? (b.label function)⟩) (b :: rest) := by
  cases hlabel : t.get? (b.label function) with
  | none => exact h
  | some a =>
    have ha := ht _ _ hlabel
    show a.toNat + Block.bytes (b :: rest) < 2 ^ 64
    omega

/-- However many blocks are laid out, the rest fits behind them. -/
theorem exists_drop_slots (ht : t.IsLow) (function : Name) (hbytes : Block.bytes bs ≤ 2 ^ 64 - 2 ^ 32)
    (h : Block.Fits cursor bs) (i : Nat) :
    ∃ next, (t.slots function cursor bs).drop i = t.slots function next (bs.drop i) ∧
      Block.Fits next (bs.drop i) := by
  induction bs generalizing cursor i with
  | nil => exact ⟨cursor, by simp [slots], by simpa using h⟩
  | cons b rest ih =>
    cases i with
    | zero => exact ⟨cursor, rfl, h⟩
    | succ i =>
      have hrest : Block.bytes rest ≤ 2 ^ 64 - 2 ^ 32 := by
        rw [Block.bytes_cons] at hbytes
        omega
      exact ih hrest (Slot.fits_stop (ht.fits_start hbytes h)) i

theorem take_slots (t : SymbolTable) (function : Name) (cursor : UInt64) (bs : List Block)
    (n : Nat) : (t.slots function cursor bs).take n = t.slots function cursor (bs.take n) := by
  induction bs generalizing cursor n with
  | nil => simp [slots]
  | cons b rest ih =>
    cases n with
    | zero => rfl
    | succ n => simp [slots, ih]

/-- Blocks of which only the first one may have a label tile an interval. -/
theorem tiles_slots (h : Block.Fits (Slot.start ⟨b, cursor, t.get? (b.label function)⟩) (b :: rest))
    (hfree : ∀ c ∈ rest, t.get? (c.label function) = none) :
    ∃ stop, Block.Tiles (Slot.start ⟨b, cursor, t.get? (b.label function)⟩) stop
      ((t.slots function cursor (b :: rest)).map Slot.placed) := by
  induction rest generalizing b cursor with
  | nil => exact ⟨_, .cons rfl (Slot.tiles_placed h) (.nil _)⟩
  | cons c rest ih =>
    obtain ⟨hc, hrest⟩ := List.forall_mem_cons.mp hfree
    let s : Slot := ⟨b, cursor, t.get? (b.label function)⟩
    -- without a label the next block starts where this one stops
    have hstart : Slot.start ⟨c, s.stop, t.get? (c.label function)⟩ = s.stop := by
      rw [hc]
      rfl
    obtain ⟨stop, htiles⟩ := ih (hstart.symm ▸ Slot.fits_stop h) hrest
    rw [hstart] at htiles
    exact ⟨stop, .cons rfl (Slot.tiles_placed h) htiles⟩

end SymbolTable

namespace MachineFunction

variable {t : SymbolTable} {f : MachineFunction} {i n : Nat}

/-- Of the `n` blocks from block `i` on, the table has the label of the first one at most. -/
def Stretch (t : SymbolTable) (f : MachineFunction) (i n : Nat) : Prop :=
  ∀ k, i < k → k < i + n → ∀ b, f.blocks[k]? = some b → t.get? (b.label f.name) = none

/-- The `n` blocks from block `i` on. -/
def blocksFrom (f : MachineFunction) (i n : Nat) : List Block := (f.blocks.drop i).take n

theorem Stretch.unlabeled {b : Block} {rest : List Block} (h : f.Stretch t i n)
    (hblocks : f.blocksFrom i n = b :: rest) : ∀ c ∈ rest, t.get? (c.label f.name) = none := by
  intro c hc
  obtain ⟨j, hj⟩ := List.mem_iff_getElem?.mp hc
  have hget : (f.blocksFrom i n)[j + 1]? = some c := hblocks ▸ hj
  have hlt : j + 1 < n := by
    have hlength := (List.getElem?_eq_some_iff.mp hget).1
    rw [blocksFrom, List.length_take] at hlength
    omega
  rw [blocksFrom, List.getElem?_take_of_lt hlt, List.getElem?_drop] at hget
  exact h (i + (j + 1)) (by omega) (by omega) c hget

/-- The blocks of a stretch tile an interval. -/
theorem Stretch.tiles (h : f.Stretch t i n) (ht : t.IsLow) (hresolves : t.resolves f)
    (hbytes : Block.bytes f.blocks ≤ 2 ^ 64 - 2 ^ 32) :
    ∃ start stop, Block.Tiles start stop ((f.place t).blocksFrom i n) := by
  obtain ⟨entry, hentry⟩ := Option.isSome_iff_exists.mp hresolves
  have hlow : entry.toNat < 2 ^ 32 := by
    rcases entry?_eq_some_iff.mp hentry with hlabel | ⟨-, s, -, hsymbol⟩
    · exact ht _ _ hlabel
    · exact ht _ _ hsymbol
  have hfits : Block.Fits entry f.blocks := by
    rw [Block.Fits]
    omega
  obtain ⟨cursor, hdrop, hcursor⟩ :=
    SymbolTable.exists_drop_slots ht f.name hbytes hfits i
  have hplaced : (f.place t).blocksFrom i n =
      (t.slots f.name cursor (f.blocksFrom i n)).map Slot.placed := by
    rw [place_of_entry hentry, blocksFrom, blocksFrom, ← List.map_drop, ← List.map_take, hdrop,
      SymbolTable.take_slots]
  rw [hplaced]
  cases hblocks : f.blocksFrom i n with
  | nil => exact ⟨0, 0, .nil 0⟩
  | cons b rest =>
    have hbefore := Block.bytes_take_add_drop f.blocks i
    have hbehind := Block.bytes_take_add_drop (f.blocks.drop i) n
    rw [← blocksFrom, hblocks] at hbehind
    rw [Block.Fits] at hcursor
    have hfirst : Block.Fits cursor (b :: rest) := by
      rw [Block.Fits]
      omega
    obtain ⟨stop, htiles⟩ :=
      SymbolTable.tiles_slots (ht.fits_start (by omega) hfirst) (h.unlabeled hblocks)
    exact ⟨_, stop, htiles⟩

/-- **No wrap, no gap and no overlap between labels.** The addresses in a table made of a dump are
below `2 ^ 32`. By such a table a function of at most `2 ^ 64 - 2 ^ 32` bytes is placed without going
over the end of the address space, and in every stretch of blocks, of which only the first one may
have a label of its own, the instructions lie one behind the other across the blocks, from the
address of the first block on. -/
theorem stretches_are_tiled :
    (∀ sections lines, (SymbolTable.ofLines sections lines).IsLow) ∧
    ∀ (t : SymbolTable) (f : MachineFunction), t.IsLow → t.resolves f →
      Block.bytes f.blocks ≤ 2 ^ 64 - 2 ^ 32 →
      (∀ b ∈ (f.place t).blocks, ∀ i ∈ b.instructions, i.EndsInside) ∧
      ∀ i n, f.Stretch t i n → ∃ start stop,
        Block.Tiles start stop ((f.place t).blocksFrom i n) ∧
        Instruction.Tiles start stop
          (((f.place t).blocksFrom i n).flatMap Block.instructions) ∧
        Instruction.Partition start stop
          (((f.place t).blocksFrom i n).flatMap Block.instructions) := by
  refine ⟨SymbolTable.isLow_ofLines, ?_⟩
  intro t f ht hresolves hbytes
  constructor
  · intro b hb
    obtain ⟨i, hi⟩ := List.mem_iff_getElem?.mp hb
    have hsingle : f.Stretch t i 1 := fun k hk hk' => absurd hk (Nat.not_lt.mpr (by omega))
    obtain ⟨start, stop, htiles⟩ := hsingle.tiles ht hresolves hbytes
    have hmem : b ∈ (f.place t).blocksFrom i 1 := by
      rw [blocksFrom, List.mem_iff_getElem?]
      exact ⟨0, by simpa using hi⟩
    intro j hj
    exact htiles.instructions.endsInside j (List.mem_flatMap.mpr ⟨b, hmem, hj⟩)
  · intro i n h
    obtain ⟨start, stop, htiles⟩ := h.tiles ht hresolves hbytes
    exact ⟨start, stop, htiles, htiles.instructions, htiles.instructions.partition⟩

/-- As many bytes as there may be, with the label of a block, an empty block and an instruction of
no bytes, in a function that begins at the highest address of a dump. -/
theorem stretches_are_tiled_of_longest_function :
    let t := SymbolTable.ofLines [".text"] ["ffffffff g     F .text\t00000000 f",
      "00000010 l       .text\t00000000 .LBB0_3"]
    let f : MachineFunction := .ofBlocks (.number 0) (some "f")
      [.ofSizes 0 [4, 0, 0xFFFFFFFEFFFFFFF0], .ofSizes 1 [], .ofSizes 2 [4], .ofSizes 3 [4, 4]]
    Block.bytes f.blocks = 2 ^ 64 - 2 ^ 32 ∧ f.Stretch t 0 3 ∧ f.Stretch t 3 1 ∧
      (∃ start stop, Block.Tiles start stop ((f.place t).blocksFrom 0 3)) ∧
      (∃ start stop, Block.Tiles start stop ((f.place t).blocksFrom 3 1)) ∧
      (f.place t).blocks.map Block.address =
        [some 0xFFFFFFFF, some 0xFFFFFFFFFFFFFFF3, some 0xFFFFFFFFFFFFFFF3, some 0x10] := by
  intro t f
  have hlow : t.IsLow := stretches_are_tiled.1 _ _
  have hresolves : t.resolves f := by decide +kernel
  have hbytes : Block.bytes f.blocks = 2 ^ 64 - 2 ^ 32 := by decide +kernel
  obtain ⟨-, htiles⟩ := stretches_are_tiled.2 t f hlow hresolves hbytes.le
  have hfirst : f.Stretch t 0 3 := by
    intro k hk hk' b hb
    obtain rfl | rfl : k = 1 ∨ k = 2 := by omega
    all_goals
      obtain rfl := Option.some.inj hb
      decide +kernel
  have hlast : f.Stretch t 3 1 := by
    intro k hk hk'
    omega
  obtain ⟨start, stop, hfirsts, -, -⟩ := htiles 0 3 hfirst
  obtain ⟨start', stop', hlasts, -, -⟩ := htiles 3 1 hlast
  refine ⟨hbytes, hfirst, hlast, ⟨start, stop, hfirsts⟩, ⟨start', stop', hlasts⟩, ?_⟩
  decide +kernel

end MachineFunction

end CodeMap
