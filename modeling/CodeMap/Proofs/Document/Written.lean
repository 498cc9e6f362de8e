import CodeMap.Proofs.Document.Extras
import CodeMap.Proofs.Json.Members

/-! # Written forms as values

The written form of a part of a document has the members of its fields first (`fields`) and behind
them those that are carried along. Any reader of values reads it from its text, if all that the
document carries along comes back (`Program.read_value_write`).
-/

namespace CodeMap

open Json

/-! ## Values that come back -/

/-- The value comes back from its printed form, where so many levels of brackets are left. -/
def Json.Printable (levels : Nat) (v : Json) : Prop := v.fits levels ∧ v.isIntegral

theorem Json.printable_natural (levels : Nat) (n : UInt64) : (natural n).Printable levels := by
  cases levels <;> exact ⟨rfl, rfl⟩

theorem Json.printable_string (levels : Nat) (s : String) : (string s).Printable levels := by
  cases levels <;> exact ⟨rfl, rfl⟩

theorem Json.printable_array {levels : Nat} {items : List Json}
    (h : ∀ v ∈ items, v.Printable levels) : (array items).Printable (levels + 1) :=
  ⟨List.all_eq_true.mpr fun v hv => (h v hv).1, isIntegral_array.mpr fun v hv => (h v hv).2⟩

/-- An object comes back, if its fields do and what it carries along. -/
theorem Extra.IsStorable.printable {part : DocumentPart} {extra : Dict Json}
    (h : Extra.IsStorable (part, extra)) {ns : List (String × Json)}
    (hns : ∀ m ∈ ns, m.2.Printable part.levels) :
    (object (ns ++ extra.entries)).Printable (part.levels + 1) := by
  have hall : ∀ m ∈ ns ++ extra.entries, m.2.Printable part.levels := by
    intro m hm
    rcases List.mem_append.mp hm with hm | hm
    · exact hns m hm
    · exact ⟨h.1.fits m hm, List.all_eq_true.mp h.2 m hm⟩
  exact ⟨List.all_eq_true.mpr fun m hm => (hall m hm).1,
    isIntegral_object.mpr fun m hm => (hall m hm).2⟩

theorem Name.printable_toJson (levels : Nat) (n : Name) : n.toJson.Printable levels := by
  cases n with
  | number n => exact printable_natural levels n
  | string s => exact printable_string levels s

/-! ## Instructions -/

namespace Instruction

theorem forall_addressMember {P : String × Json → Prop} (h : ∀ a, P ("address", .natural a))
    (address : Option UInt64) : ∀ m ∈ addressMember address, P m := by
  cases address with
  | none => nofun
  | some a => exact List.forall_mem_singleton.mpr (h a)

/-- The members of an instruction that have a meaning. -/
def fields (i : Instruction) : List (String × Json) :=
  ("index", .natural i.index.toUInt64) :: ("size", .natural i.size) :: addressMember i.address

theorem toJson_eq (i : Instruction) : i.toJson = .object (i.fields ++ i.extra.entries) := rfl

theorem fields_keys (i : Instruction) : ∀ m ∈ i.fields, m.1 ∈ record.keys := by
  have haddress : "address" ∈ record.keys := by decide
  simp only [fields, List.forall_mem_cons]
  exact ⟨by decide, by decide, forall_addressMember (fun _ => haddress) i.address⟩

theorem member?_fields (i : Instruction) :
    (object i.fields).member? "index" = some (.natural i.index.toUInt64) ∧
      (object i.fields).member? "size" = some (.natural i.size) ∧
      (object i.fields).member? "address" = i.address.map .natural := by
  rw [fields]
  cases i.address <;> simp [member?, Dict.ofList, Dict.get?_insert, addressMember]

theorem printable_toJson {i : Instruction} (h : ∀ e ∈ i.extras, e.IsStorable) :
    i.toJson.Printable 121 := by
  rw [toJson_eq]
  apply (h _ List.mem_cons_self).printable
  simp only [fields, List.forall_mem_cons]
  exact ⟨printable_natural _ _, printable_natural _ _,
    forall_addressMember (printable_natural _) i.address⟩

end Instruction

/-! ## Blocks -/

namespace Block

/-- The members of a block that have a meaning. -/
def fields (b : Block) : List (String × Json) :=
  ("name", b.name.toJson) :: (Instruction.addressMember b.address ++
    [("instructions", .array (b.instructions.map Instruction.toJson))])

theorem toJson_eq (b : Block) : b.toJson = .object (b.fields ++ b.extra.entries) := by
  simp [toJson, fields]

theorem fields_keys (b : Block) : ∀ m ∈ b.fields, m.1 ∈ record.keys := by
  have haddress : "address" ∈ record.keys := by decide
  simp only [fields, List.forall_mem_cons, List.forall_mem_append]
  exact ⟨by decide, Instruction.forall_addressMember (fun _ => haddress) b.address, by decide,
    nofun⟩

theorem member?_fields (b : Block) :
    (object b.fields).member? "name" = some b.name.toJson ∧
      (object b.fields).member? "address" = b.address.map .natural ∧
      (object b.fields).member? "instructions" =
        some (.array (b.instructions.map Instruction.toJson)) := by
  rw [fields]
  cases b.address <;> simp [member?, Dict.ofList, Dict.get?_insert, Instruction.addressMember]

theorem printable_toJson {b : Block} (h : ∀ e ∈ b.extras, e.IsStorable) :
    b.toJson.Printable 123 := by
  have hinstructions : ∀ v ∈ b.instructions.map Instruction.toJson, v.Printable 121 :=
    List.forall_mem_map.mpr fun i hi => Instruction.printable_toJson fun e he =>
      h e (List.mem_cons_of_mem _ (List.mem_flatMap_of_mem hi he))
  rw [toJson_eq]
  apply (h _ List.mem_cons_self).printable
  simp only [fields, List.forall_mem_cons, List.forall_mem_append]
  exact ⟨Name.printable_toJson _ _,
    Instruction.forall_addressMember (printable_natural _) b.address,
    printable_array hinstructions, nofun⟩

end Block

/-! ## Functions -/

namespace MachineFunction

/-- The members of a function that have a meaning. -/
def fields (f : MachineFunction) : List (String × Json) :=
  ("name", f.name.toJson) :: (symbolMember f.mapsto ++
    [("blocks", .array (f.blocks.map Block.toJson))])

theorem toJson_eq (f : MachineFunction) : f.toJson = .object (f.fields ++ f.extra.entries) := by
  simp [toJson, fields]

theorem forall_symbolMember {P : String × Json → Prop} (h : ∀ s, P ("mapsto", .string s))
    (mapsto : Option String) : ∀ m ∈ symbolMember mapsto, P m := by
  cases mapsto with
  | none => nofun
  | some s => exact List.forall_mem_singleton.mpr (h s)

theorem fields_keys (f : MachineFunction) : ∀ m ∈ f.fields, m.1 ∈ record.keys := by
  have hsymbol : "mapsto" ∈ record.keys := by decide
  simp only [fields, List.forall_mem_cons, List.forall_mem_append]
  exact ⟨by decide, forall_symbolMember (fun _ => hsymbol) f.mapsto, by decide, nofun⟩

theorem member?_fields (f : MachineFunction) :
    (object f.fields).member? "name" = some f.name.toJson ∧
      (object f.fields).member? "mapsto" = f.mapsto.map .string ∧
      (object f.fields).member? "blocks" = some (.array (f.blocks.map Block.toJson)) := by
  rw [fields]
  cases f.mapsto <;> simp [member?, Dict.ofList, Dict.get?_insert, symbolMember]

theorem printable_toJson {f : MachineFunction} (h : ∀ e ∈ f.extras, e.IsStorable) :
    f.toJson.Printable 125 := by
  have hblocks : ∀ v ∈ f.blocks.map Block.toJson, v.Printable 123 :=
    List.forall_mem_map.mpr fun b hb => Block.printable_toJson fun e he =>
      h e (List.mem_cons_of_mem _ (List.mem_flatMap_of_mem hb he))
  rw [toJson_eq]
  apply (h _ List.mem_cons_self).printable
  simp only [fields, List.forall_mem_cons, List.forall_mem_append]
  exact ⟨Name.printable_toJson _ _, forall_symbolMember (printable_string _) f.mapsto,
    printable_array hblocks, nofun⟩

end MachineFunction

/-! ## Programs -/

namespace Program

/-- The members of a program that have a meaning. -/
def fields (p : Program) : List (String × Json) :=
  [("machine-functions", .array (p.functions.map MachineFunction.toJson))]

theorem toJson_eq (p : Program) : p.toJson = .object (p.fields ++ p.extra.entries) := rfl

theorem fields_keys (p : Program) : ∀ m ∈ p.fields, m.1 ∈ record.keys := by
  have hfunctions : "machine-functions" ∈ record.keys := by decide
  exact List.forall_mem_singleton.mpr hfunctions

theorem printable_toJson {p : Program} (h : p.IsStorable) :
    p.toJson.Printable Reader.maxLevels := by
  have hfunctions : ∀ v ∈ p.functions.map MachineFunction.toJson, v.Printable 125 :=
    List.forall_mem_map.mpr fun f hf => MachineFunction.printable_toJson fun e he =>
      h e (List.mem_cons_of_mem _ (List.mem_flatMap_of_mem hf he))
  rw [toJson_eq]
  exact (h _ List.mem_cons_self).printable
    (List.forall_mem_singleton.mpr (printable_array hfunctions))

/-- The text of a storable program holds its written form. -/
theorem read_value_write {p : Program} (h : p.IsStorable) : Json.read p.write = .ok p.toJson :=
  (Reader.reads_value (printable_toJson h).1 (printable_toJson h).2).readAll_pretty

end Program

end CodeMap
