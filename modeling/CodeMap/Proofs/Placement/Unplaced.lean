import CodeMap.Placement.Report

/-! # Addresses forgotten

`unplaced` forgets every address of a document and nothing else. A placement changes addresses
only (`unplaced_place`), and it reads none that was there before (`place_unplaced`). Hence of two
placements of a function the later one alone decides, if its table resolves the function
(`place_place`), and the report of a placement does not depend on earlier ones
(`Report.ofProgram_place`).
-/

namespace CodeMap

/-! ## Forgetting -/

/-- The instruction without its address. -/
def Instruction.unplaced (i : Instruction) : Instruction := { i with address := none }

/-- The block without its address and those of its instructions. -/
def Block.unplaced (b : Block) : Block :=
  { b with address := none, instructions := b.instructions.map Instruction.unplaced }

/-- The function without the addresses of its blocks. -/
def MachineFunction.unplaced (f : MachineFunction) : MachineFunction :=
  { f with blocks := f.blocks.map Block.unplaced }

/-- The program without addresses. -/
def Program.unplaced (p : Program) : Program :=
  { p with functions := p.functions.map MachineFunction.unplaced }

/-- The slot of the block without addresses. -/
def Slot.unplaced (s : Slot) : Slot := { s with block := s.block.unplaced }

/-! ## Blocks -/

namespace Instruction

/-- Laying out writes addresses and nothing else. -/
@[simp] theorem map_unplaced_layOut (start : UInt64) (is : List Instruction) :
    (layOut start is).map unplaced = is.map unplaced := by
  induction is generalizing start with
  | nil => rfl
  | cons i rest ih =>
    rw [layOut, List.map_cons, List.map_cons, ih]
    rfl

/-- Laying out reads no address. -/
@[simp] theorem layOut_map_unplaced (start : UInt64) (is : List Instruction) :
    layOut start (is.map unplaced) = layOut start is := by
  induction is generalizing start with
  | nil => rfl
  | cons i rest ih =>
    rw [List.map_cons, layOut, ih]
    rfl

end Instruction

namespace Block

@[simp] theorem length_instructions_unplaced (b : Block) :
    b.unplaced.instructions.length = b.instructions.length := List.length_map _

@[simp] theorem extent_unplaced (b : Block) : b.unplaced.extent = b.extent := by
  rw [extent, extent, unplaced, List.foldr_map]
  rfl

@[simp] theorem unplaced_placeAt (start : UInt64) (b : Block) :
    (b.placeAt start).unplaced = b.unplaced := by
  simp [placeAt, unplaced]

@[simp] theorem placeAt_unplaced (start : UInt64) (b : Block) :
    b.unplaced.placeAt start = b.placeAt start := by
  simp [placeAt, unplaced]

end Block

namespace Slot

@[simp] theorem start_unplaced (s : Slot) : s.unplaced.start = s.start := rfl

@[simp] theorem stop_unplaced (s : Slot) : s.unplaced.stop = s.stop := by
  rw [stop, stop, start_unplaced]
  exact congrArg _ s.block.extent_unplaced

@[simp] theorem placed_unplaced (s : Slot) : s.unplaced.placed = s.placed :=
  s.block.placeAt_unplaced s.start

@[simp] theorem unplaced_placed (s : Slot) : s.placed.unplaced = s.block.unplaced :=
  s.block.unplaced_placeAt s.start

end Slot

namespace SymbolTable

/-- The slots of blocks keep the blocks as they are. -/
@[simp] theorem map_block_slots (t : SymbolTable) (function : Name) (inferred : UInt64)
    (bs : List Block) : (t.slots function inferred bs).map Slot.block = bs := by
  induction bs generalizing inferred with
  | nil => rfl
  | cons b rest ih => rw [slots, List.map_cons, ih]

@[simp] theorem length_slots (t : SymbolTable) (function : Name) (inferred : UInt64)
    (bs : List Block) : (t.slots function inferred bs).length = bs.length := by
  rw [← List.length_map Slot.block, map_block_slots]

/-- Slots are inferred from labels and sizes alone. -/
theorem slots_map_unplaced (t : SymbolTable) (function : Name) (inferred : UInt64)
    (bs : List Block) :
    t.slots function inferred (bs.map Block.unplaced) =
      (t.slots function inferred bs).map Slot.unplaced := by
  induction bs generalizing inferred with
  | nil => rfl
  | cons b rest ih =>
    let slot : Slot := ⟨b, inferred, t.get? (b.label function)⟩
    show slot.unplaced :: t.slots function slot.unplaced.stop (rest.map Block.unplaced) =
      slot.unplaced :: (t.slots function slot.stop rest).map Slot.unplaced
    rw [Slot.stop_unplaced, ih]

end SymbolTable

/-! ## Functions -/

namespace MachineFunction

variable (t u : SymbolTable) (f : MachineFunction)

@[simp] theorem entry?_unplaced : t.entry? f.unplaced = t.entry? f := rfl

theorem slots?_unplaced : t.slots? f.unplaced = (t.slots? f).map (List.map Slot.unplaced) := by
  rw [SymbolTable.slots?, SymbolTable.slots?, Option.map_map]
  exact congrArg (Option.map · (t.entry? f)) (funext fun entry =>
    t.slots_map_unplaced f.name entry f.blocks)

/-- A placement reads no address. -/
theorem place?_unplaced : f.unplaced.place? t = f.place? t := by
  rw [place?, place?, slots?_unplaced, Option.map_map]
  refine congrArg (Option.map · (t.slots? f)) (funext fun slots => ?_)
  show ({ f with blocks := (slots.map Slot.unplaced).map Slot.placed } : MachineFunction) = _
  rw [List.map_map, funext (f := Slot.placed ∘ Slot.unplaced) Slot.placed_unplaced]

theorem place?_eq_none_iff : f.place? t = none ↔ t.entry? f = none := by
  simp [place?, SymbolTable.slots?]

theorem isSome_place? : (f.place? t).isSome = t.resolves f := by
  simp [place?, SymbolTable.slots?, SymbolTable.resolves]

theorem slots?_of_entry {t : SymbolTable} {f : MachineFunction} {entry : UInt64}
    (h : t.entry? f = some entry) : t.slots? f = some (t.slots f.name entry f.blocks) := by
  rw [SymbolTable.slots?, h, Option.map_some]

/-- The function in its place, by the address where it begins. -/
theorem place_of_entry {t : SymbolTable} {f : MachineFunction} {entry : UInt64}
    (h : t.entry? f = some entry) :
    f.place t = { f with blocks := (t.slots f.name entry f.blocks).map Slot.placed } := by
  simp [place, place?, SymbolTable.slots?, h]

theorem place_eq_self {t : SymbolTable} {f : MachineFunction} (h : t.entry? f = none) :
    f.place t = f := by
  rw [place, (place?_eq_none_iff t f).mpr h, Option.getD_none]

/-- A placement changes nothing but addresses. -/
@[simp] theorem unplaced_place : (f.place t).unplaced = f.unplaced := by
  cases h : t.entry? f with
  | none => rw [place_eq_self h]
  | some entry =>
    have hb : ((t.slots f.name entry f.blocks).map Slot.placed).map Block.unplaced =
        f.blocks.map Block.unplaced :=
      calc ((t.slots f.name entry f.blocks).map Slot.placed).map Block.unplaced
          = ((t.slots f.name entry f.blocks).map Slot.block).map Block.unplaced := by
            rw [List.map_map, List.map_map]
            exact List.map_congr_left fun s _ => s.unplaced_placed
        _ = f.blocks.map Block.unplaced := by rw [t.map_block_slots]
    rw [place_of_entry h, unplaced, unplaced, hb]

@[simp] theorem entry?_place : t.entry? (f.place u) = t.entry? f := by
  rw [← entry?_unplaced, unplaced_place, entry?_unplaced]

/-- A function that the table resolves is placed alike, whatever addresses it has. -/
theorem place_unplaced {t : SymbolTable} {f : MachineFunction} (h : t.resolves f) :
    f.unplaced.place t = f.place t := by
  obtain ⟨entry, he⟩ := Option.isSome_iff_exists.mp h
  have hu : t.entry? f.unplaced = some entry := he
  obtain ⟨g, hg⟩ := Option.ne_none_iff_exists'.mp fun hn =>
    Option.some_ne_none _ (he.symm.trans ((place?_eq_none_iff t f).mp hn))
  rw [place, place, place?_unplaced, hg, Option.getD_some, Option.getD_some]

/-- Of two placements the later one decides, if its table resolves the function. -/
theorem place_place {t : SymbolTable} {f : MachineFunction} (h : t.resolves f)
    (u : SymbolTable) : (f.place u).place t = f.place t := by
  have hu : t.resolves (f.place u) := by rwa [SymbolTable.resolves, entry?_place]
  rw [← place_unplaced hu, unplaced_place, place_unplaced h]

/-- A second placement by the same table changes nothing. -/
@[simp] theorem place_self : (f.place t).place t = f.place t := by
  cases h : t.entry? f with
  | none => rw [place_eq_self h, place_eq_self h]
  | some entry => exact place_place (Option.isSome_of_eq_some h) t

end MachineFunction

/-! ## Reports -/

namespace Report

theorem ofSlots_map_unplaced (slots : List Slot) :
    ofSlots (slots.map Slot.unplaced) = ofSlots slots := by
  simp [ofSlots, List.countP_map, List.foldr_map, Slot.unplaced, Function.comp_def]

theorem ofFunction?_unplaced (t : SymbolTable) (f : MachineFunction) :
    ofFunction? t f.unplaced = ofFunction? t f := by
  rw [ofFunction?, ofFunction?, MachineFunction.slots?_unplaced, Option.map_map]
  exact congrArg (Option.map · (t.slots? f)) (funext ofSlots_map_unplaced)

theorem ofFunction_unplaced (t : SymbolTable) (f : MachineFunction) :
    ofFunction t f.unplaced = ofFunction t f := by
  rw [ofFunction, ofFunction, ofFunction?_unplaced]
  rfl

@[simp] theorem ofFunction_place (t u : SymbolTable) (f : MachineFunction) :
    ofFunction t (f.place u) = ofFunction t f := by
  rw [← ofFunction_unplaced, MachineFunction.unplaced_place, ofFunction_unplaced]

/-- A report does not depend on earlier placements. -/
@[simp] theorem ofProgram_place (t u : SymbolTable) (p : Program) :
    ofProgram t (p.place u) = ofProgram t p := by
  rw [ofProgram, ofProgram, ofFunctions, ofFunctions, Program.functions_place, List.foldr_map]
  simp only [ofFunction_place]

end Report

/-! ## Programs -/

namespace Program

@[simp] theorem unplaced_place (t : SymbolTable) (p : Program) :
    (p.place t).unplaced = p.unplaced := by
  simp [unplaced]

/-- A second placement by the same table changes nothing. -/
@[simp] theorem place_self (t : SymbolTable) (p : Program) : (p.place t).place t = p.place t := by
  simp [place]

/-- A placement by a table that resolves every function which an earlier one has resolved leaves
no trace of that one. -/
theorem place_place {t u : SymbolTable} (p : Program)
    (h : ∀ f ∈ p.functions, t.resolves f → u.resolves f) :
    (p.place t).place u = p.place u := by
  have hf : ∀ f ∈ p.functions, (f.place t).place u = f.place u := by
    intro f hmem
    cases he : t.entry? f with
    | none => rw [MachineFunction.place_eq_self he]
    | some entry =>
      exact MachineFunction.place_place (h f hmem (Option.isSome_of_eq_some he)) t
  rw [place, place, place, List.map_map]
  exact congrArg (Program.mk · p.extra) (List.map_congr_left hf)

end Program

end CodeMap
