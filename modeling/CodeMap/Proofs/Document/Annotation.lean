import CodeMap.Proofs.Document.Meaning
import CodeMap.Proofs.Document.Written

/-! # Placements as annotations of documents

A document that is read, placed and written is the same document but for its addresses
(`Program.annotated_of_read`). The relations `Annotated` say level by level how the value `u` of the
document that is written comes from the value `v` of the one that was read: objects are compared by
the values of their keys, arrays by their elements in order.
-/

namespace CodeMap

open Json

/-! ## Annotated values -/

/-- The member `address` of `u`: the address given, if the function is resolved, and else what `v`
has there, unless it is null. -/
def Json.Readdressed (resolved : Bool) (address : Option UInt64) (v u : Json) : Prop :=
  if resolved then ∃ a, address = some a ∧ u.member? "address" = some (.natural a)
  else u.member? "address" = v.nonNull? "address"

/-- Both have an array for the key, with elements in a relation for each of the parts. If `v` has
none, `u` has an empty one. -/
def Json.Itemwise {α : Type} (key : String) (R : α → Json → Json → Prop) (parts : List α)
    (v u : Json) : Prop :=
  ∃ vs us, (v.member? key).getD (.array []) = .array vs ∧ u.member? key = some (.array us) ∧
    vs.length = us.length ∧ List.Forall₂ (fun a x => R a x.1 x.2) parts (vs.zip us)

structure Instruction.Annotated (resolved : Bool) (i : Instruction) (v u : Json) : Prop where
  others : AgreeBut ["address"] v u
  address : Readdressed resolved i.address v u

structure Block.Annotated (resolved : Bool) (b : Block) (v u : Json) : Prop where
  others : AgreeBut ["address", "instructions"] v u
  address : Readdressed resolved b.address v u
  instructions : Itemwise "instructions" (Instruction.Annotated resolved) b.instructions v u

structure MachineFunction.Annotated (t : SymbolTable) (f : MachineFunction) (v u : Json) :
    Prop where
  others : AgreeBut ["mapsto", "blocks"] v u
  mapsto : u.member? "mapsto" = v.nonNull? "mapsto"
  blocks : Itemwise "blocks" (Block.Annotated (t.resolves f)) f.blocks v u

/-- The value `u` is `v` annotated with the addresses that the program `p` has in the functions that
the table resolves. -/
structure Program.Annotated (t : SymbolTable) (p : Program) (v u : Json) : Prop where
  others : AgreeBut ["machine-functions"] v u
  functions : Itemwise "machine-functions" (MachineFunction.Annotated t) p.functions v u

/-! ## Placed parts -/

/-- What becomes of an address: it stays, unless the function is resolved. -/
inductive AddressBecomes : (resolved : Bool) → (address later : Option UInt64) → Prop where
  | kept (address : Option UInt64) : AddressBecomes false address address
  | placed (address : Option UInt64) (a : UInt64) : AddressBecomes true address (some a)

structure Instruction.Becomes (resolved : Bool) (i j : Instruction) : Prop where
  index_eq : j.index = i.index
  size_eq : j.size = i.size
  extra_eq : j.extra = i.extra
  address : AddressBecomes resolved i.address j.address

structure Block.Becomes (resolved : Bool) (b c : Block) : Prop where
  name_eq : c.name = b.name
  extra_eq : c.extra = b.extra
  address : AddressBecomes resolved b.address c.address
  instructions : List.Forall₂ (Instruction.Becomes resolved) b.instructions c.instructions

structure MachineFunction.Becomes (resolved : Bool) (f g : MachineFunction) : Prop where
  name_eq : g.name = f.name
  mapsto_eq : g.mapsto = f.mapsto
  extra_eq : g.extra = f.extra
  blocks : List.Forall₂ (Block.Becomes resolved) f.blocks g.blocks

theorem Instruction.Becomes.refl (i : Instruction) : i.Becomes false i :=
  ⟨rfl, rfl, rfl, .kept _⟩

theorem Instruction.becomes_layOut (start : UInt64) (is : List Instruction) :
    List.Forall₂ (Instruction.Becomes true) is (layOut start is) := by
  induction is generalizing start with
  | nil => exact .nil
  | cons i rest ih => exact .cons ⟨rfl, rfl, rfl, .placed _ _⟩ (ih _)

theorem Block.Becomes.refl (b : Block) : b.Becomes false b :=
  ⟨rfl, rfl, .kept _, List.forall₂_same.mpr fun i _ => .refl i⟩

theorem Block.becomes_placeAt (start : UInt64) (b : Block) : b.Becomes true (b.placeAt start) :=
  ⟨rfl, rfl, .placed _ _, Instruction.becomes_layOut start b.instructions⟩

theorem SymbolTable.becomes_slots (t : SymbolTable) (function : Name) (inferred : UInt64)
    (bs : List Block) :
    List.Forall₂ (Block.Becomes true) bs ((t.slots function inferred bs).map Slot.placed) := by
  induction bs generalizing inferred with
  | nil => exact .nil
  | cons b rest ih => exact .cons (b.becomes_placeAt _) (ih _)

/-- A placement changes nothing but addresses, and nothing at all if the table does not resolve the
function. -/
theorem MachineFunction.becomes_place (t : SymbolTable) (f : MachineFunction) :
    f.Becomes (t.resolves f) (f.place t) := by
  rw [SymbolTable.resolves]
  cases h : t.entry? f with
  | none =>
    rw [place_eq_self h]
    exact ⟨rfl, rfl, rfl, List.forall₂_same.mpr fun b _ => .refl b⟩
  | some entry =>
    rw [place_of_entry h]
    exact ⟨rfl, rfl, rfl, t.becomes_slots f.name entry f.blocks⟩

/-! ## Written parts -/

/-- Parts that are written one by one are related one by one to the values that they come from. -/
theorem Json.itemwise_toJson {α : Type} {means : Json → α → Prop} {becomes : α → α → Prop}
    {toJson : α → Json} {R : α → Json → Json → Prop} {key : String} {v u : Json} {as bs : List α}
    (hv : ∃ vs, (v.member? key).getD (.array []) = .array vs ∧ List.Forall₂ means vs as)
    (hbecomes : List.Forall₂ becomes as bs)
    (hu : u.member? key = some (.array (bs.map toJson)))
    (hR : ∀ v a b, means v a → becomes a b → R b v (toJson b)) : Itemwise key R bs v u := by
  obtain ⟨vs, hvs, hmeans⟩ := hv
  refine ⟨vs, _, hvs, hu, ?_, ?_⟩
  · rw [hmeans.length_eq, hbecomes.length_eq, List.length_map]
  · clear hvs hu
    induction hmeans generalizing bs with
    | nil =>
      cases hbecomes
      exact .nil
    | cons hm _ ih =>
      cases hbecomes with
      | cons hb hrest => exact .cons (hR _ _ _ hm hb) (ih hrest)

/-- The address that is written for a part in its place. -/
theorem AddressBecomes.readdressed {resolved : Bool} {address later : Option UInt64} {v u : Json}
    (h : AddressBecomes resolved address later) (hv : v.nonNull? "address" = address.map .natural)
    (hu : u.member? "address" = later.map .natural) : Readdressed resolved later v u := by
  cases h with
  | kept => exact hu.trans hv.symm
  | placed _ a => exact ⟨a, rfl, hu⟩

theorem Instruction.annotated_toJson {resolved : Bool} {v : Json} {i j : Instruction}
    (h : i.MeantBy v) (hj : i.Becomes resolved j) : j.Annotated resolved v j.toJson := by
  obtain ⟨hindex, hsize, haddress⟩ := j.member?_fields
  have hrest : v.Carries record.keys j.extra := hj.extra_eq ▸ h.rest
  rw [toJson_eq]
  refine ⟨hrest.agreeBut j.fields_keys ?_, hj.address.readdressed h.address ?_⟩
  · refine List.forall_mem_cons.mpr ⟨?_, List.forall_mem_singleton.mpr ?_⟩
    · rw [hindex, h.index, hj.index_eq]
    · rw [hsize, h.size, hj.size_eq]
  · rw [hrest.member?_append (by decide), haddress]

theorem Block.annotated_toJson {resolved : Bool} {v : Json} {b c : Block} (h : b.MeantBy v)
    (hc : b.Becomes resolved c) : c.Annotated resolved v c.toJson := by
  obtain ⟨hname, haddress, hinstructions⟩ := c.member?_fields
  have hrest : v.Carries record.keys c.extra := hc.extra_eq ▸ h.rest
  rw [toJson_eq]
  refine ⟨hrest.agreeBut c.fields_keys ?_, hc.address.readdressed h.address ?_,
    itemwise_toJson h.instructions hc.instructions ?_ fun _ _ _ => Instruction.annotated_toJson⟩
  · refine List.forall_mem_singleton.mpr ?_
    rw [hname, h.name, hc.name_eq]
  · rw [hrest.member?_append (by decide), haddress]
  · rw [hrest.member?_append (by decide), hinstructions]

theorem MachineFunction.annotated_toJson {t : SymbolTable} {v : Json} {f g : MachineFunction}
    (h : f.MeantBy v) (hg : f.Becomes (t.resolves g) g) : g.Annotated t v g.toJson := by
  obtain ⟨hname, hmapsto, hblocks⟩ := g.member?_fields
  have hrest : v.Carries record.keys g.extra := hg.extra_eq ▸ h.rest
  rw [toJson_eq]
  refine ⟨hrest.agreeBut g.fields_keys ?_, ?_,
    itemwise_toJson h.blocks hg.blocks ?_ fun _ _ _ => Block.annotated_toJson⟩
  · refine List.forall_mem_singleton.mpr ?_
    rw [hname, h.name, hg.name_eq]
  · rw [hrest.member?_append (by decide), hmapsto, h.mapsto, hg.mapsto_eq]
  · rw [hrest.member?_append (by decide), hblocks]

namespace Program

theorem annotated_toJson {v : Json} {p : Program} (h : p.MeantBy v) (t : SymbolTable) :
    (p.place t).Annotated t v (p.place t).toJson := by
  have hplace : List.Forall₂ (fun f g => f.Becomes (t.resolves g) g) p.functions
      (p.place t).functions := by
    rw [functions_place, List.forall₂_map_right_iff]
    refine List.forall₂_same.mpr fun f _ => ?_
    rw [SymbolTable.resolves, MachineFunction.entry?_place]
    exact f.becomes_place t
  rw [toJson_eq]
  refine ⟨h.rest.agreeBut (p.place t).fields_keys ?_,
    itemwise_toJson h.functions hplace ?_ fun _ _ _ => MachineFunction.annotated_toJson⟩
  · exact List.forall_mem_nil _
  · exact h.rest.member?_append (by decide)

/-- **A placement is an annotation.** The document that is read, placed and written has the same
value for every key at every level as the one that was read, but for these: arrays of parts are
there even if they were left out, a symbol or an address that was null is left out, and in the
functions that the table resolves every block and every instruction has its address. Numbers without
a meaning have to be integers of 64 bits, and of members with one key the last counts. -/
theorem annotated_of_read {text : String} {p : Program} (h : read text = .ok p)
    (hi : p.isIntegral) (t : SymbolTable) :
    ∃ v u, Json.read text = .ok v ∧ Json.read (p.place t).write = .ok u ∧
      (p.place t).Annotated t v u := by
  obtain ⟨v, hv, hp⟩ := exists_value_of_read h
  have hstorable := (isStorable_of_read h hi).place t
  exact ⟨v, (p.place t).toJson, hv, read_value_write hstorable,
    annotated_toJson (meantBy_of_ofJson? hp) t⟩

theorem annotated_of_read_of_null_and_stale_addresses :
    let text := "\x7b\"size\":-2,\"machine-functions\":[
\x7b\"name\":7,\"mapsto\":\"main\",\"blocks\":[\x7b\"name\":0,\"address\":null\x7d]\x7d,
\x7b\"name\":8,\"blocks\":[\x7b\"name\":0,\"address\":5\x7d]\x7d]\x7d"
    let p : Program := ⟨[⟨.number 7, some "main", [⟨.number 0, none, [], .empty⟩], .empty⟩,
        ⟨.number 8, none, [⟨.number 0, some 5, [], .empty⟩], .empty⟩],
      Dict.ofList [("size", .number (.negative 1))]⟩
    let t := SymbolTable.empty.insert "main" 64
    read text = .ok p ∧ p.isIntegral ∧ ∃ v u, Json.read text = .ok v ∧
      Json.read (p.place t).write = .ok u ∧ (p.place t).Annotated t v u := by
  intro text p t
  have hread : read text = .ok p := ok_of_toOption_eq_some (by decide +kernel)
  have hi : p.isIntegral := by decide
  exact ⟨hread, hi, annotated_of_read hread hi t⟩

end Program

end CodeMap
