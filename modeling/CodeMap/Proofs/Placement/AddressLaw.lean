import CodeMap.Proofs.Placement.Unplaced
import Mathlib.Algebra.GroupWithZero.Nat

/-! # The law of addresses

A placement walks over the blocks of a function. Here its result is stated without the walk:
every block lies behind the last block up to it whose label the table has, at a distance of the
bytes in between, or behind the beginning of the function if there is no such block. Inside a
block every instruction lies behind those before it (`placed_by_last_label`). Bytes are counted in
`Nat`; only the address at the end is taken modulo `2 ^ 64`.
-/

namespace CodeMap

/-- The bytes of instructions. -/
def Instruction.bytes (is : List Instruction) : Nat := (is.map fun i => i.size.toNat).sum

/-- The bytes of the instructions of blocks. -/
def Block.bytes (bs : List Block) : Nat := (bs.map fun b => Instruction.bytes b.instructions).sum

/-! ## Inside a block -/

namespace Instruction

@[simp] theorem bytes_nil : bytes [] = 0 := rfl

@[simp] theorem bytes_cons (i : Instruction) (rest : List Instruction) :
    bytes (i :: rest) = i.size.toNat + bytes rest := List.sum_cons

/-- Instructions lie behind one another. -/
theorem getElem?_layOut (start : UInt64) (is : List Instruction) (k : Nat) :
    (layOut start is)[k]? = is[k]?.map fun i =>
      { i with address := some (start + UInt64.ofNat (bytes (is.take k))) } := by
  induction is generalizing start k with
  | nil => rfl
  | cons i rest ih =>
    cases k with
    | zero => simp [layOut]
    | succ k =>
      rw [layOut, List.getElem?_cons_succ, List.getElem?_cons_succ, ih, List.take_succ_cons,
        bytes_cons, UInt64.ofNat_add, UInt64.ofNat_toNat, UInt64.add_assoc]

end Instruction

namespace Block

@[simp] theorem bytes_nil : bytes [] = 0 := rfl

@[simp] theorem bytes_singleton (b : Block) : bytes [b] = Instruction.bytes b.instructions := by
  simp [bytes]

theorem bytes_cons (b : Block) (rest : List Block) :
    bytes (b :: rest) = Instruction.bytes b.instructions + bytes rest := List.sum_cons

theorem bytes_append (bs cs : List Block) : bytes (bs ++ cs) = bytes bs + bytes cs := by
  simp [bytes]

/-- The extent of a block is its bytes, modulo `2 ^ 64`. -/
theorem extent_eq (b : Block) : b.extent = UInt64.ofNat (Instruction.bytes b.instructions) := by
  rw [extent]
  induction b.instructions with
  | nil => rfl
  | cons i rest ih =>
    rw [List.foldr_cons, ih, Instruction.bytes_cons, UInt64.ofNat_add, UInt64.ofNat_toNat]

/-- The bytes from one block up to another grow by the block in between. -/
theorem bytes_take_succ_drop {bs : List Block} {b : Block} {i j : Nat} (hij : j ≤ i)
    (hb : bs[i]? = some b) :
    bytes ((bs.take (i + 1)).drop j) =
      bytes ((bs.take i).drop j) + Instruction.bytes b.instructions := by
  have hi : j ≤ (bs.take i).length := by
    rw [List.length_take]
    exact Nat.le_min.mpr ⟨hij, Nat.le_trans hij (Nat.le_of_lt (List.getElem?_eq_some_iff.mp hb).1)⟩
  rw [List.take_add_one, hb, List.drop_append_of_le_length hi, bytes_append, Option.toList_some,
    bytes_singleton]

end Block

/-! ## Slots one by one -/

namespace SymbolTable

variable {t : SymbolTable} {function : Name} {inferred : UInt64} {bs : List Block}

/-- The slots of blocks hold the blocks and the addresses of their labels. -/
theorem getElem?_slots (t : SymbolTable) (function : Name) (inferred : UInt64) {i : Nat}
    {b : Block} (h : bs[i]? = some b) :
    ∃ start, (t.slots function inferred bs)[i]? = some ⟨b, start, t.get? (b.label function)⟩ := by
  induction bs generalizing inferred i with
  | nil => cases h
  | cons c rest ih =>
    cases i with
    | zero =>
      obtain rfl := Option.some.inj h
      exact ⟨inferred, rfl⟩
    | succ i => exact ih _ h

theorem getElem?_slots_zero {s : Slot} (h : (t.slots function inferred bs)[0]? = some s) :
    s.inferred = inferred := by
  cases bs with
  | nil => cases h
  | cons b rest =>
    obtain rfl := Option.some.inj h
    rfl

/-- A block is inferred to lie where the block before it ends. -/
theorem inferred_eq_stop {i : Nat} {s next : Slot}
    (hs : (t.slots function inferred bs)[i]? = some s)
    (hn : (t.slots function inferred bs)[i + 1]? = some next) : next.inferred = s.stop := by
  induction bs generalizing inferred i with
  | nil => cases hs
  | cons b rest ih =>
    cases i with
    | zero =>
      obtain rfl := Option.some.inj hs
      exact getElem?_slots_zero hn
    | succ i => exact ih hs hn

end SymbolTable

/-! ## The law -/

namespace MachineFunction

variable (t : SymbolTable) (f : MachineFunction)

/-- The table has no label of the first `i + 1` blocks. -/
def NoLabel (i : Nat) : Prop :=
  ∀ k ≤ i, ∀ b, f.blocks[k]? = some b → t.get? (b.label f.name) = none

/-- Of the first `i + 1` blocks, block `j` is the last one whose label the table has. -/
structure LastLabel (i j : Nat) (address : UInt64) : Prop where
  le : j ≤ i
  labeled : ∃ b, f.blocks[j]? = some b ∧ t.get? (b.label f.name) = some address
  last : ∀ k, j < k → k ≤ i → ∀ b, f.blocks[k]? = some b → t.get? (b.label f.name) = none

/-- The address of block `i` in a function that begins at `entry`. -/
inductive BlockAddress (entry : UInt64) (i : Nat) : UInt64 → Prop where
  | behindLabel {j : Nat} {address : UInt64} (h : f.LastLabel t i j address) :
    BlockAddress entry i (address + UInt64.ofNat (Block.bytes ((f.blocks.take i).drop j)))
  | behindEntry (h : f.NoLabel t i) :
    BlockAddress entry i (entry + UInt64.ofNat (Block.bytes (f.blocks.take i)))

/-- The instructions `is` are placed as `js` behind one another from an address on. -/
def Consecutive (address : UInt64) (is js : List Instruction) : Prop :=
  ∀ k i, is[k]? = some i → ∃ j, js[k]? = some j ∧
    j.address = some (address + UInt64.ofNat (Instruction.bytes (is.take k)))

/-- The function `g` is `f` with every block and every instruction at the address of the law. -/
structure LaidOut (entry : UInt64) (g : MachineFunction) : Prop where
  unplaced_eq : g.unplaced = f.unplaced
  block : ∀ i b, f.blocks[i]? = some b → ∃ c address, g.blocks[i]? = some c ∧
    f.BlockAddress t entry i address ∧ c.address = some address ∧
    Consecutive address b.instructions c.instructions

variable {t : SymbolTable} {f : MachineFunction} {entry : UInt64}

/-- The step of the law: from a block to the next one. -/
theorem BlockAddress.succ {i : Nat} {b c : Block} {start : UInt64}
    (h : f.BlockAddress t entry i start) (hb : f.blocks[i]? = some b)
    (hc : f.blocks[i + 1]? = some c) :
    f.BlockAddress t entry (i + 1)
      ((t.get? (c.label f.name)).getD (start + b.extent)) := by
  cases hl : t.get? (c.label f.name) with
  | some address =>
    have hlast : f.LastLabel t (i + 1) (i + 1) address :=
      ⟨Nat.le_refl _, ⟨c, hc, hl⟩, fun k hk hk' => absurd hk (Nat.not_lt.mpr hk')⟩
    have hnil : (f.blocks.take (i + 1)).drop (i + 1) = [] :=
      List.drop_eq_nil_of_le (List.length_take_le _ _)
    have haddress : f.BlockAddress t entry (i + 1) _ := .behindLabel hlast
    simpa [hnil] using haddress
  | none =>
    rw [Option.getD_none]
    cases h with
    | @behindLabel j address hlast =>
      rw [Block.extent_eq, UInt64.add_assoc, ← UInt64.ofNat_add,
        ← Block.bytes_take_succ_drop hlast.le hb]
      refine .behindLabel ⟨Nat.le_succ_of_le hlast.le, hlast.labeled, ?_⟩
      intro k hj hk d hd
      rcases Nat.le_succ_iff.mp hk with hk | rfl
      · exact hlast.last k hj hk d hd
      · rw [hc] at hd
        exact Option.some.inj hd ▸ hl
    | behindEntry hnone =>
      have hbytes := Block.bytes_take_succ_drop (Nat.zero_le i) hb
      rw [List.drop_zero, List.drop_zero] at hbytes
      rw [Block.extent_eq, UInt64.add_assoc, ← UInt64.ofNat_add, ← hbytes]
      refine .behindEntry fun k hk d hd => ?_
      rcases Nat.le_succ_iff.mp hk with hk | rfl
      · exact hnone k hk d hd
      · rw [hc] at hd
        exact Option.some.inj hd ▸ hl

/-- The slots of a function start where the law puts its blocks. -/
theorem blockAddress_start {i : Nat} {b : Block} {s : Slot} (hb : f.blocks[i]? = some b)
    (hs : (t.slots f.name entry f.blocks)[i]? = some s) :
    f.BlockAddress t entry i s.start := by
  induction i generalizing b s with
  | zero =>
    obtain ⟨start, h⟩ := t.getElem?_slots f.name entry hb
    obtain rfl := Option.some.inj (hs.symm.trans h)
    have hentry : start = entry := SymbolTable.getElem?_slots_zero hs
    subst hentry
    cases hl : t.get? (b.label f.name) with
    | some address =>
      have hlast : f.LastLabel t 0 0 address :=
        ⟨Nat.le_refl _, ⟨b, hb, hl⟩, fun k hk hk' => absurd hk (Nat.not_lt.mpr hk')⟩
      have haddress : f.BlockAddress t start 0 _ := .behindLabel hlast
      simpa [Slot.start] using haddress
    | none =>
      have hnone : f.NoLabel t 0 := by
        intro k hk d hd
        obtain rfl := Nat.le_zero.mp hk
        rw [hb] at hd
        exact Option.some.inj hd ▸ hl
      have haddress : f.BlockAddress t start 0 _ := .behindEntry hnone
      simpa [Slot.start] using haddress
  | succ i ih =>
    obtain ⟨b', hb'⟩ : ∃ b', f.blocks[i]? = some b' :=
      ⟨_, List.getElem?_eq_getElem (Nat.lt_of_succ_lt (List.getElem?_eq_some_iff.mp hb).1)⟩
    obtain ⟨start', h'⟩ := t.getElem?_slots f.name entry hb'
    obtain ⟨start, h⟩ := t.getElem?_slots f.name entry hb
    obtain rfl := Option.some.inj (hs.symm.trans h)
    have hstop : start = _ := SymbolTable.inferred_eq_stop h' hs
    subst hstop
    exact (ih hb' h').succ hb' hb

/-- A function that the table resolves is laid out from its beginning on. -/
theorem laidOut_place (h : t.entry? f = some entry) : f.LaidOut t entry (f.place t) where
  unplaced_eq := f.unplaced_place t
  block i b hb := by
    obtain ⟨start, hs⟩ := t.getElem?_slots f.name entry hb
    refine ⟨Slot.placed ⟨b, start, t.get? (b.label f.name)⟩, _, ?_, blockAddress_start hb hs,
      rfl, ?_⟩
    · rw [place_of_entry h, List.getElem?_map, hs, Option.map_some]
    · intro k x hx
      have hy := Instruction.getElem?_layOut
        (Slot.start ⟨b, start, t.get? (b.label f.name)⟩) b.instructions k
      rw [hx, Option.map_some] at hy
      exact ⟨_, hy, rfl⟩

/-- A function begins at its entry label or else at its symbol. -/
theorem entry?_eq_some_iff : t.entry? f = some entry ↔
    t.get? f.entryLabel = some entry ∨
      t.get? f.entryLabel = none ∧ ∃ s, f.mapsto = some s ∧ t.get? s = some entry := by
  simp [SymbolTable.entry?, Option.or_eq_some_iff, Option.bind_eq_some_iff]

theorem entry?_eq_none_iff : t.entry? f = none ↔
    t.get? f.entryLabel = none ∧ ∀ s, f.mapsto = some s → t.get? s = none := by
  simp [SymbolTable.entry?, Option.or_eq_none_iff, Option.bind_eq_none_iff]

/-- **The law of addresses.** A function of which the table has neither the entry label nor the
symbol gets no report and stays as it is. Any other is laid out from the address of its entry label
or, if the table has none, of its symbol; nothing but its addresses changes. -/
theorem placed_by_last_label (t : SymbolTable) (f : MachineFunction) :
    (t.get? f.entryLabel = none → (∀ s, f.mapsto = some s → t.get? s = none) →
      Report.ofFunction? t f = none ∧ f.place t = f) ∧
    ∀ entry, (t.get? f.entryLabel = some entry ∨
        t.get? f.entryLabel = none ∧ ∃ s, f.mapsto = some s ∧ t.get? s = some entry) →
      (∃ r, Report.ofFunction? t f = some r) ∧ f.LaidOut t entry (f.place t) := by
  constructor
  · intro hlabel hsymbol
    have h : t.entry? f = none := entry?_eq_none_iff.mpr ⟨hlabel, hsymbol⟩
    exact ⟨by simp [Report.ofFunction?, SymbolTable.slots?, h], place_eq_self h⟩
  · intro entry hentry
    have h : t.entry? f = some entry := entry?_eq_some_iff.mpr hentry
    exact ⟨by simp [Report.ofFunction?, SymbolTable.slots?, h], laidOut_place h⟩

/-- A function that begins at its symbol, with an empty block and with a label four bytes before the
end of the address space; and one that the table does not resolve. -/
theorem placed_by_last_label_around_zero :
    let t : SymbolTable := .ofPairs [("f", 0x1000), (".LBB7_2", 0xFFFFFFFFFFFFFFFC)]
    let f : MachineFunction := .ofBlocks (.number 7) (some "f")
      [.ofSizes 0 [4, 4], .ofSizes 1 [], .ofSizes 2 [8], .ofSizes 3 [4]]
    let g : MachineFunction := .ofBlocks (.string "7") (some "g") [.ofSizes 2 [8]]
    (t.get? f.entryLabel = none ∧ ∃ s, f.mapsto = some s ∧ t.get? s = some 0x1000) ∧
      f.LaidOut t 0x1000 (f.place t) ∧
      (f.place t).blocks.map Block.address =
        [some 0x1000, some 0x1008, some 0xFFFFFFFFFFFFFFFC, some 4] ∧
      t.get? g.entryLabel = none ∧ (∀ s, g.mapsto = some s → t.get? s = none) ∧
      g.place t = g := by
  intro t f g
  have hlabel : t.get? f.entryLabel = none := by decide +kernel
  have hsymbol : t.get? "f" = some 0x1000 := by decide +kernel
  have hentry : t.get? f.entryLabel = none ∧ ∃ s, f.mapsto = some s ∧ t.get? s = some 0x1000 :=
    ⟨hlabel, "f", rfl, hsymbol⟩
  have hgsymbol : ∀ s, g.mapsto = some s → t.get? s = none := by
    rintro s hs
    obtain rfl : "g" = s := Option.some.inj hs
    decide +kernel
  refine ⟨hentry, ((placed_by_last_label t f).2 0x1000 (.inr hentry)).2, ?_, hlabel, hgsymbol,
    ((placed_by_last_label t g).1 hlabel hgsymbol).2⟩
  decide +kernel

end MachineFunction

end CodeMap
