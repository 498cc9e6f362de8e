import CodeMap.Placement.Events
import CodeMap.Proofs.Document.Label

/-! # What a placement depends on

A placement looks up the labels of a function (`MachineFunction.labels`) and no others, so tables
that agree on them place it alike (`MachineFunction.placedAlike_of_agree`). All functions have their
labels in one table, and names may have underscores; but as long as the names of blocks have none,
no label of a block belongs to a function with another name (`blockLabel_notMem_labels`). So
whatever becomes of the blocks of one function in the table moves no function with another name
(`MachineFunction.other_blocks_do_not_matter`).
-/

namespace CodeMap

/-! ## Tables that agree -/

namespace SymbolTable

variable {t u : SymbolTable} {labels : List String} {label : String}

/-- The table with one label changed: it has the given address, or none. -/
def change (t : SymbolTable) (label : String) : Option UInt64 → SymbolTable
  | some address => t.insert label address
  | none => ⟨t.addresses.erase label⟩

theorem get?_change (t : SymbolTable) (label : String) (address? : Option UInt64)
    (other : String) : (t.change label address?).get? other =
      if label = other then address? else t.get? other := by
  cases address? with
  | some address => exact t.get?_insert label address other
  | none => simp [change, get?, Std.ExtTreeMap.getElem?_erase]

/-- The tables answer alike for all of the labels. -/
def Agree (labels : List String) (t u : SymbolTable) : Prop :=
  ∀ label ∈ labels, t.get? label = u.get? label

/-- A change of another label does not matter. -/
theorem agree_change (h : label ∉ labels) (t : SymbolTable) (address? : Option UInt64) :
    Agree labels t (t.change label address?) := by
  intro other hother
  have hne : label ≠ other := fun heq => h (heq ▸ hother)
  rw [get?_change, if_neg hne]

/-- Blocks are laid out by their own labels. -/
theorem slots_congr {function : Name} {bs : List Block}
    (h : ∀ b ∈ bs, t.get? (b.label function) = u.get? (b.label function)) (inferred : UInt64) :
    t.slots function inferred bs = u.slots function inferred bs := by
  induction bs generalizing inferred with
  | nil => rfl
  | cons b rest ih =>
    obtain ⟨hb, hrest⟩ := List.forall_mem_cons.mp h
    rw [slots, slots, hb, ih hrest]

end SymbolTable

/-! ## Functions -/

namespace MachineFunction

variable {t u : SymbolTable} {g : MachineFunction}

/-- The labels that say where a function lies: its entry label, its symbol, and those of its
blocks. -/
def labels (g : MachineFunction) : List String :=
  g.entryLabel :: g.mapsto.toList ++ g.blocks.map (Block.label g.name)

theorem mem_labels {label : String} : label ∈ g.labels ↔
    label = g.entryLabel ∨ g.mapsto = some label ∨ ∃ b ∈ g.blocks, b.label g.name = label := by
  simp [labels]

theorem entry?_congr (h : SymbolTable.Agree g.labels t u) : t.entry? g = u.entry? g := by
  have hentry : t.get? g.entryLabel = u.get? g.entryLabel := h _ (mem_labels.mpr (.inl rfl))
  have hsymbol : g.mapsto.bind t.get? = g.mapsto.bind u.get? := by
    cases hmapsto : g.mapsto with
    | none => rfl
    | some symbol => exact h symbol (mem_labels.mpr (.inr (.inl hmapsto)))
  rw [SymbolTable.entry?, SymbolTable.entry?, hentry, hsymbol]

theorem slots?_congr (h : SymbolTable.Agree g.labels t u) : t.slots? g = u.slots? g := by
  have hblocks : ∀ b ∈ g.blocks, t.get? (b.label g.name) = u.get? (b.label g.name) :=
    fun b hb => h _ (mem_labels.mpr (.inr (.inr ⟨b, hb, rfl⟩)))
  rw [SymbolTable.slots?, SymbolTable.slots?, entry?_congr h]
  exact congrArg (Option.map · (u.entry? g)) (funext (SymbolTable.slots_congr hblocks))

/-- By both tables the function gets the same addresses, the same report and the same events. -/
structure PlacedAlike (g : MachineFunction) (t u : SymbolTable) : Prop where
  place_eq : g.place t = g.place u
  report_eq : Report.ofFunction? t g = Report.ofFunction? u g
  events_eq : g.placementEvents t = g.placementEvents u

theorem placedAlike_of_agree (h : SymbolTable.Agree g.labels t u) : g.PlacedAlike t u where
  place_eq := by rw [place, place, place?, place?, slots?_congr h]
  report_eq := by rw [Report.ofFunction?, Report.ofFunction?, slots?_congr h]
  events_eq := by
    rw [placementEvents, placementEvents, overrideEvents, overrideEvents, slots?_congr h,
      SymbolTable.resolves, SymbolTable.resolves, entry?_congr h]

/-! ## Blocks of other functions -/

/-- No block of the function has an underscore in its name. -/
def HasPlainBlocks (g : MachineFunction) : Prop := ∀ b ∈ g.blocks, b.name.IsPlain

instance (g : MachineFunction) : Decidable g.HasPlainBlocks :=
  inferInstanceAs (Decidable (∀ b ∈ g.blocks, b.name.IsPlain))

/-- The label of a block is no label of a function with another name, unless it is its symbol. -/
theorem blockLabel_notMem_labels {f b : Name} (hname : f.text ≠ g.name.text) (hb : b.IsPlain)
    (hg : g.HasPlainBlocks) (hsymbol : g.mapsto ≠ some (blockLabel f.text b.text)) :
    blockLabel f.text b.text ∉ g.labels := by
  have other {c : String} (hc : '_' ∉ c.toList) :
      blockLabel f.text b.text ≠ blockLabel g.name.text c :=
    fun h => hname ((blockLabel_inj hb hc).mp h).1
  rw [mem_labels]
  rintro (h | h | ⟨c, hc, h⟩)
  · exact other (by decide) h
  · exact hsymbol h
  · exact other (hg c hc) h.symm

/-- The tables differ in labels of blocks of one function only, whose names have no underscores. -/
def DifferInBlocksOf (f : Name) (t u : SymbolTable) : Prop :=
  ∀ label, t.get? label ≠ u.get? label → ∃ b : Name, b.IsPlain ∧ label = blockLabel f.text b.text

theorem agree_of_differInBlocksOf {f : Name} (h : DifferInBlocksOf f t u)
    (hname : f.text ≠ g.name.text) (hg : g.HasPlainBlocks)
    (hsymbol : ∀ symbol, g.mapsto = some symbol → t.get? symbol = u.get? symbol) :
    SymbolTable.Agree g.labels t u := by
  intro label hlabel
  by_contra hne
  obtain ⟨b, hb, rfl⟩ := h label hne
  exact blockLabel_notMem_labels hname hb hg (fun hm => hne (hsymbol _ hm)) hlabel

/-- **Functions do not interfere.** A function is placed by its own labels: if any other label is
set, moved or taken away, its addresses, its report and its events stay as they are. As long as the
names of blocks have no underscores, as numbers never have, the label of a block is no label of a
function with another name, unless it is its symbol. So whatever becomes of the blocks of one
function in the table, a function with another name does not move. -/
theorem other_blocks_do_not_matter (t : SymbolTable) (g : MachineFunction) :
    (∀ label address?, label ∉ g.labels → g.PlacedAlike t (t.change label address?)) ∧
      (∀ f b : Name, f.text ≠ g.name.text → b.IsPlain → g.HasPlainBlocks →
        g.mapsto ≠ some (blockLabel f.text b.text) → blockLabel f.text b.text ∉ g.labels) ∧
      (∀ n, (Name.number n).IsPlain) ∧
      ∀ f u, f.text ≠ g.name.text → DifferInBlocksOf f t u → g.HasPlainBlocks →
        (∀ symbol, g.mapsto = some symbol → t.get? symbol = u.get? symbol) →
        g.PlacedAlike t u := by
  refine ⟨?_, ?_, Name.isPlain_number, ?_⟩
  · intro label address? h
    exact placedAlike_of_agree (SymbolTable.agree_change h t address?)
  · intro f b hname hb hg hsymbol
    exact blockLabel_notMem_labels hname hb hg hsymbol
  · intro f u hname hdiffer hg hsymbol
    exact placedAlike_of_agree (agree_of_differInBlocksOf hdiffer hname hg hsymbol)

/-- The functions `1` and `1_0` have labels that begin alike. Of the blocks of `1_0` one is lost and
one is moved. -/
theorem other_blocks_do_not_matter_of_common_beginning :
    let t : SymbolTable := .ofPairs [(".LBB1_0", 0x1000), (".LBB1_1", 0x2000),
      (".LBB1_0_0", 0x3000), (".LBB1_0_1", 0x3010)]
    let u := (t.change ".LBB1_0_0" none).change ".LBB1_0_1" (some 0x1004)
    let g : MachineFunction :=
      .ofBlocks (.number 1) (some "main") [.ofSizes 0 [4, 4], .ofSizes 1 [8]]
    let f : Name := .string "1_0"
    (f.text ≠ g.name.text ∧ (Name.number 0).IsPlain ∧ g.HasPlainBlocks ∧
        g.mapsto ≠ some (blockLabel f.text (Name.number 0).text)) ∧
      ".LBB1_0_0" ∉ g.labels ∧ g.PlacedAlike t (t.change ".LBB1_0_0" none) ∧
      DifferInBlocksOf f t u ∧ (∀ symbol, g.mapsto = some symbol → t.get? symbol = u.get? symbol) ∧
      g.PlacedAlike t u ∧ (g.place u).blocks.map Block.address = [some 0x1000, some 0x2000] := by
  intro t u g f
  have hname : f.text ≠ g.name.text := by decide +kernel
  have hplain : g.HasPlainBlocks := by decide +kernel
  have hmapsto : g.mapsto ≠ some (blockLabel f.text (Name.number 0).text) := by decide +kernel
  have hdiffer : DifferInBlocksOf f t u := by
    intro label hne
    rw [SymbolTable.get?_change, SymbolTable.get?_change] at hne
    split at hne
    · next h => exact ⟨.number 1, Name.isPlain_number 1, h ▸ by decide +kernel⟩
    · split at hne
      · next h => exact ⟨.number 0, Name.isPlain_number 0, h ▸ by decide +kernel⟩
      · exact absurd rfl hne
  have hsymbol : ∀ symbol, g.mapsto = some symbol → t.get? symbol = u.get? symbol := by
    rintro symbol hs
    obtain rfl : "main" = symbol := Option.some.inj hs
    decide +kernel
  obtain ⟨hchange, hlabel, hnumber, hblocks⟩ := other_blocks_do_not_matter t g
  have hnotMem : ".LBB1_0_0" ∉ g.labels := hlabel f (.number 0) hname (hnumber 0) hplain hmapsto
  refine ⟨⟨hname, hnumber 0, hplain, hmapsto⟩, hnotMem, hchange _ none hnotMem, hdiffer, hsymbol,
    hblocks f u hname hdiffer hplain hsymbol, ?_⟩
  decide +kernel

end MachineFunction

end CodeMap
