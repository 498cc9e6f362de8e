import CodeMap.Proofs.Document.Decoding
import CodeMap.Proofs.Json.Members

/-! # What a document has for its keys

A value that means a part of a document (`MeantBy`) has the parts of it for the keys of its record,
in their written form, and what it has for other keys is carried along. A member that can be left
out may also be null, and an array may be left out if it is empty: in this the value may differ from
the written form of what it means.
-/

namespace CodeMap

open Json

theorem Name.eq_toJson_of_ofJson? {v : Json} {n : Name} (h : ofJson? v = some n) :
    v = n.toJson := by
  unfold ofJson? at h
  split at h <;> cases h <;> rfl

/-! ## Instructions -/

namespace Instruction

structure MeantBy (v : Json) (i : Instruction) : Prop where
  index : v.member? "index" = some (.natural i.index.toUInt64)
  size : v.member? "size" = some (.natural i.size)
  address : v.nonNull? "address" = i.address.map .natural
  rest : v.Carries record.keys i.extra

/-- The parts of a draft are decoded from the members so far. -/
structure Draft.Tracks (members : Dict Json) (d : Draft) : Prop where
  index : Json.Tracks word32? d.index (members.get? "index")
  size : Json.Tracks word64? d.size (members.get? "size")
  address : Json.Tracks (nullable? word64?) d.address (members.get? "address")
  rest : CarriesBut record.keys members d.extra

theorem Draft.Tracks.setField? {members : Dict Json} {key : String} {d next : Draft} {v : Json}
    (h : d.Tracks members) (hnext : d.setField? key v = some next) :
    next.Tracks (members.insert key v) := by
  unfold Draft.setField? at hnext
  split at hnext
  · obtain ⟨n, hn, rfl⟩ := Option.map_eq_some_iff.mp hnext
    exact ⟨.insert_self hn, h.size.insert_of_ne (by decide), h.address.insert_of_ne (by decide),
      h.rest.insert_of_mem (by decide)⟩
  · obtain ⟨n, hn, rfl⟩ := Option.map_eq_some_iff.mp hnext
    exact ⟨h.index.insert_of_ne (by decide), .insert_self hn, h.address.insert_of_ne (by decide),
      h.rest.insert_of_mem (by decide)⟩
  · obtain ⟨a, ha, rfl⟩ := Option.map_eq_some_iff.mp hnext
    exact ⟨h.index.insert_of_ne (by decide), h.size.insert_of_ne (by decide), .insert_self ha,
      h.rest.insert_of_mem (by decide)⟩
  · cases hnext

theorem Draft.Tracks.carry {members : Dict Json} {key : String} {d : Draft} {v : Json}
    (h : d.Tracks members) (hkey : key ∉ record.keys) :
    Draft.Tracks (members.insert key v) { d with extra := d.extra.insert key v.canonical } := by
  have hne : ∀ k ∈ record.keys, k ≠ key := fun k hk he => hkey (he ▸ hk)
  exact ⟨h.index.insert_of_ne (hne _ (by decide)), h.size.insert_of_ne (hne _ (by decide)),
    h.address.insert_of_ne (hne _ (by decide)), h.rest.insert_of_notMem hkey⟩

theorem meantBy_of_ofJson? {v : Json} {i : Instruction} (h : ofJson? v = some i) :
    i.MeantBy v := by
  obtain ⟨ms, ⟨index, size, address, extra⟩, rfl, hd, hfinish⟩ :=
    Record.exists_tracked_draft (P := Draft.Tracks) h ⟨rfl, rfl, rfl, .empty _⟩
      Draft.Tracks.setField? Draft.Tracks.carry
  cases index with
  | none => cases hfinish
  | some index =>
    cases size with
    | none => cases hfinish
    | some size =>
      cases hfinish
      obtain ⟨hindex, hsize, haddress, hrest⟩ := hd
      obtain ⟨v, hv, hdecode⟩ := hindex.exists_value
      obtain ⟨w, hw, hsize⟩ := hsize.exists_value
      rw [eq_natural_of_word32? hdecode] at hv
      rw [eq_natural_of_word64? hsize] at hw
      exact ⟨hv, hw, haddress.filter_eq eq_natural_of_word64? nofun, ms, rfl, hrest⟩

end Instruction

/-! ## Blocks -/

namespace Block

structure MeantBy (v : Json) (b : Block) : Prop where
  name : v.member? "name" = some b.name.toJson
  address : v.nonNull? "address" = b.address.map .natural
  instructions : ∃ vs, (v.member? "instructions").getD (.array []) = .array vs ∧
    List.Forall₂ Instruction.MeantBy vs b.instructions
  rest : v.Carries record.keys b.extra

/-- The parts of a draft are decoded from the members so far. -/
structure Draft.Tracks (members : Dict Json) (d : Draft) : Prop where
  name : Json.Tracks Name.ofJson? d.name (members.get? "name")
  address : Json.Tracks (nullable? word64?) d.address (members.get? "address")
  instructions : Json.Tracks (list? Instruction.ofJson?) d.instructions
    (members.get? "instructions")
  rest : CarriesBut record.keys members d.extra

theorem Draft.Tracks.setField? {members : Dict Json} {key : String} {d next : Draft} {v : Json}
    (h : d.Tracks members) (hnext : d.setField? key v = some next) :
    next.Tracks (members.insert key v) := by
  unfold Draft.setField? at hnext
  split at hnext
  · obtain ⟨n, hn, rfl⟩ := Option.map_eq_some_iff.mp hnext
    exact ⟨.insert_self hn, h.address.insert_of_ne (by decide),
      h.instructions.insert_of_ne (by decide), h.rest.insert_of_mem (by decide)⟩
  · obtain ⟨a, ha, rfl⟩ := Option.map_eq_some_iff.mp hnext
    exact ⟨h.name.insert_of_ne (by decide), .insert_self ha,
      h.instructions.insert_of_ne (by decide), h.rest.insert_of_mem (by decide)⟩
  · obtain ⟨is, his, rfl⟩ := Option.map_eq_some_iff.mp hnext
    exact ⟨h.name.insert_of_ne (by decide), h.address.insert_of_ne (by decide), .insert_self his,
      h.rest.insert_of_mem (by decide)⟩
  · cases hnext

theorem Draft.Tracks.carry {members : Dict Json} {key : String} {d : Draft} {v : Json}
    (h : d.Tracks members) (hkey : key ∉ record.keys) :
    Draft.Tracks (members.insert key v) { d with extra := d.extra.insert key v.canonical } := by
  have hne : ∀ k ∈ record.keys, k ≠ key := fun k hk he => hkey (he ▸ hk)
  exact ⟨h.name.insert_of_ne (hne _ (by decide)), h.address.insert_of_ne (hne _ (by decide)),
    h.instructions.insert_of_ne (hne _ (by decide)), h.rest.insert_of_notMem hkey⟩

theorem meantBy_of_ofJson? {v : Json} {b : Block} (h : ofJson? v = some b) : b.MeantBy v := by
  obtain ⟨ms, ⟨name, address, instructions, extra⟩, rfl, hd, hfinish⟩ :=
    Record.exists_tracked_draft (P := Draft.Tracks) h ⟨rfl, rfl, rfl, .empty _⟩
      Draft.Tracks.setField? Draft.Tracks.carry
  cases name with
  | none => cases hfinish
  | some name =>
    cases hfinish
    obtain ⟨hname, haddress, hinstructions, hrest⟩ := hd
    obtain ⟨v, hv, hdecode⟩ := hname.exists_value
    rw [Name.eq_toJson_of_ofJson? hdecode] at hv
    obtain ⟨vs, hvs, hall⟩ := hinstructions.exists_array
    exact ⟨hv, haddress.filter_eq eq_natural_of_word64? nofun,
      ⟨vs, hvs, hall.imp fun _ _ => Instruction.meantBy_of_ofJson?⟩, ms, rfl, hrest⟩

end Block

/-! ## Functions -/

namespace MachineFunction

structure MeantBy (v : Json) (f : MachineFunction) : Prop where
  name : v.member? "name" = some f.name.toJson
  mapsto : v.nonNull? "mapsto" = f.mapsto.map .string
  blocks : ∃ vs, (v.member? "blocks").getD (.array []) = .array vs ∧
    List.Forall₂ Block.MeantBy vs f.blocks
  rest : v.Carries record.keys f.extra

/-- The parts of a draft are decoded from the members so far. -/
structure Draft.Tracks (members : Dict Json) (d : Draft) : Prop where
  name : Json.Tracks Name.ofJson? d.name (members.get? "name")
  mapsto : Json.Tracks (nullable? string?) d.mapsto (members.get? "mapsto")
  blocks : Json.Tracks (list? Block.ofJson?) d.blocks (members.get? "blocks")
  rest : CarriesBut record.keys members d.extra

theorem Draft.Tracks.setField? {members : Dict Json} {key : String} {d next : Draft} {v : Json}
    (h : d.Tracks members) (hnext : d.setField? key v = some next) :
    next.Tracks (members.insert key v) := by
  unfold Draft.setField? at hnext
  split at hnext
  · obtain ⟨n, hn, rfl⟩ := Option.map_eq_some_iff.mp hnext
    exact ⟨.insert_self hn, h.mapsto.insert_of_ne (by decide), h.blocks.insert_of_ne (by decide),
      h.rest.insert_of_mem (by decide)⟩
  · obtain ⟨s, hs, rfl⟩ := Option.map_eq_some_iff.mp hnext
    exact ⟨h.name.insert_of_ne (by decide), .insert_self hs, h.blocks.insert_of_ne (by decide),
      h.rest.insert_of_mem (by decide)⟩
  · obtain ⟨bs, hbs, rfl⟩ := Option.map_eq_some_iff.mp hnext
    exact ⟨h.name.insert_of_ne (by decide), h.mapsto.insert_of_ne (by decide), .insert_self hbs,
      h.rest.insert_of_mem (by decide)⟩
  · cases hnext

theorem Draft.Tracks.carry {members : Dict Json} {key : String} {d : Draft} {v : Json}
    (h : d.Tracks members) (hkey : key ∉ record.keys) :
    Draft.Tracks (members.insert key v) { d with extra := d.extra.insert key v.canonical } := by
  have hne : ∀ k ∈ record.keys, k ≠ key := fun k hk he => hkey (he ▸ hk)
  exact ⟨h.name.insert_of_ne (hne _ (by decide)), h.mapsto.insert_of_ne (hne _ (by decide)),
    h.blocks.insert_of_ne (hne _ (by decide)), h.rest.insert_of_notMem hkey⟩

theorem meantBy_of_ofJson? {v : Json} {f : MachineFunction} (h : ofJson? v = some f) :
    f.MeantBy v := by
  obtain ⟨ms, ⟨name, mapsto, blocks, extra⟩, rfl, hd, hfinish⟩ :=
    Record.exists_tracked_draft (P := Draft.Tracks) h ⟨rfl, rfl, rfl, .empty _⟩
      Draft.Tracks.setField? Draft.Tracks.carry
  cases name with
  | none => cases hfinish
  | some name =>
    cases hfinish
    obtain ⟨hname, hmapsto, hblocks, hrest⟩ := hd
    obtain ⟨v, hv, hdecode⟩ := hname.exists_value
    rw [Name.eq_toJson_of_ofJson? hdecode] at hv
    obtain ⟨vs, hvs, hall⟩ := hblocks.exists_array
    exact ⟨hv, hmapsto.filter_eq eq_string_of_string? nofun,
      ⟨vs, hvs, hall.imp fun _ _ => Block.meantBy_of_ofJson?⟩, ms, rfl, hrest⟩

end MachineFunction

/-! ## Programs -/

namespace Program

structure MeantBy (v : Json) (p : Program) : Prop where
  functions : ∃ vs, (v.member? "machine-functions").getD (.array []) = .array vs ∧
    List.Forall₂ MachineFunction.MeantBy vs p.functions
  rest : v.Carries record.keys p.extra

/-- The parts of a draft are decoded from the members so far. -/
structure Draft.Tracks (members : Dict Json) (d : Draft) : Prop where
  functions : Json.Tracks (list? MachineFunction.ofJson?) d.functions
    (members.get? "machine-functions")
  rest : CarriesBut record.keys members d.extra

theorem Draft.Tracks.setField? {members : Dict Json} {key : String} {d next : Draft} {v : Json}
    (h : d.Tracks members) (hnext : d.setField? key v = some next) :
    next.Tracks (members.insert key v) := by
  unfold Draft.setField? at hnext
  split at hnext
  · obtain ⟨fs, hfs, rfl⟩ := Option.map_eq_some_iff.mp hnext
    exact ⟨.insert_self hfs, h.rest.insert_of_mem (by decide)⟩
  · cases hnext

theorem Draft.Tracks.carry {members : Dict Json} {key : String} {d : Draft} {v : Json}
    (h : d.Tracks members) (hkey : key ∉ record.keys) :
    Draft.Tracks (members.insert key v) { d with extra := d.extra.insert key v.canonical } := by
  have hne : ∀ k ∈ record.keys, k ≠ key := fun k hk he => hkey (he ▸ hk)
  exact ⟨h.functions.insert_of_ne (hne _ (by decide)), h.rest.insert_of_notMem hkey⟩

theorem meantBy_of_ofJson? {v : Json} {p : Program} (h : ofJson? v = some p) : p.MeantBy v := by
  obtain ⟨ms, ⟨functions, extra⟩, rfl, hd, hfinish⟩ :=
    Record.exists_tracked_draft (P := Draft.Tracks) h ⟨rfl, .empty _⟩
      Draft.Tracks.setField? Draft.Tracks.carry
  cases hfinish
  obtain ⟨vs, hvs, hall⟩ := hd.functions.exists_array
  exact ⟨⟨vs, hvs, hall.imp fun _ _ => MachineFunction.meantBy_of_ofJson?⟩, ms, rfl, hd.rest⟩

end Program

end CodeMap
