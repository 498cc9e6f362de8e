import CodeMap.Proofs.Document.Meaning
import CodeMap.Proofs.Json.Acceptance
import CodeMap.Proofs.Json.Forms
import CodeMap.Proofs.Json.Spellings

/-! # The schema of documents

Every part of a document has a form (`HasForm`), and a text is read as a program if and only if it
holds a value of the form of a program (`Program.read_iff_hasForm`): no part is read that has not
its form, and none is refused that has it. What is read has one part for every element of an array,
in order.
-/

namespace CodeMap

open Json

theorem Name.accepts_reader (levels : Nat) : (Name.reader levels).Accepts levels Name.ofJson? where
  run_eq hv h := by
    simp only [reader]
    rw [hv]
    simp only [h]

/-- The value is a name: a natural number of 64 bits, or a string. -/
def Name.HasForm (v : Json) : Prop := v.IsBelow UInt64.size ∨ v.IsString

theorem Name.isSome_ofJson?_iff (v : Json) : (Name.ofJson? v).isSome ↔ Name.HasForm v := by
  rw [HasForm, ← isSome_word64?_iff, ← isSome_string?_iff]
  cases v with
  | number n =>
    cases n with
    | natural n =>
      have hn : n.toNat ≤ Width.greatest .word64 := Nat.le_of_lt_succ n.toNat_lt
      simp [ofJson?, word64?, natural?, hn]
    | negative | real => simp [ofJson?, word64?, natural?, string?]
  | null | bool | string | array | object => simp [ofJson?, word64?, natural?, string?]

/-- The form of an address: there may be none. -/
def addressForm : KeyForm := ⟨"address", false, IsNullOr (IsBelow UInt64.size)⟩

/-! ## Instructions -/

namespace Instruction

def keyForms : List KeyForm :=
  [⟨"index", true, IsBelow UInt32.size⟩, ⟨"size", true, IsBelow UInt64.size⟩, addressForm]

/-- The value has the form of an instruction. -/
def HasForm (v : Json) : Prop := v.IsObject keyForms

theorem accepts_reader (levels : Nat) :
    (record.reader (levels + 1)).Accepts (levels + 1) ofJson? := by
  refine Record.accepts ?_ fun draft key => Reader.accepts_value.map _
  simp only [record, List.forall_mem_cons]
  refine ⟨?_, ?_, ?_, List.forall_mem_nil _⟩ <;> intro d
  · exact Reader.accepts_word32.map _
  · exact Reader.accepts_word64.map _
  · exact Reader.accepts_word64.nullable.map _

theorem record_fits : record.Fits Draft.setField?
    (fun d key v => { d with extra := d.extra.insert key v.canonical }) keyForms where
  keys_eq := rfl
  isSet_start := by simp [record]
  isSome_iff := by
    simp only [keyForms, addressForm, List.forall_mem_cons, Draft.setField?, Option.isSome_map]
    exact ⟨fun _ _ => isSome_word32?_iff, fun _ _ => isSome_word64?_iff,
      fun _ _ => isSome_nullable?_iff fun _ => isSome_word64?_iff, List.forall_mem_nil _⟩
  isSet_field := by
    simp only [record, List.forall_mem_cons]
    refine ⟨?_, ?_, ?_, List.forall_mem_nil _⟩ <;>
    · intro key d v next h
      unfold Draft.setField? at h
      split at h
      case h_4 => cases h
      all_goals
        obtain ⟨_, -, rfl⟩ := Option.map_eq_some_iff.mp h
        simp
  isSet_carry := by simp [record]
  isSome_finish_iff := by
    rintro ⟨index, size, address, extra⟩
    cases index <;> cases size <;>
      simp [record, keyForms, addressForm, Record.isSetAt, required] <;> rfl

theorem isSome_ofJson?_iff (v : Json) : (ofJson? v).isSome ↔ HasForm v :=
  record_fits.isSome_decode_iff

end Instruction

/-! ## Blocks -/

namespace Block

def keyForms : List KeyForm :=
  [⟨"name", true, Name.HasForm⟩, addressForm,
    ⟨"instructions", false, IsArrayOf Instruction.HasForm⟩]

/-- The value has the form of a block. -/
def HasForm (v : Json) : Prop := v.IsObject keyForms

theorem accepts_reader (levels : Nat) :
    (record.reader (levels + 3)).Accepts (levels + 3) ofJson? := by
  refine Record.accepts ?_ fun draft key => Reader.accepts_value.map _
  simp only [record, List.forall_mem_cons]
  refine ⟨?_, ?_, ?_, List.forall_mem_nil _⟩ <;> intro d
  · exact (Name.accepts_reader _).map _
  · exact Reader.accepts_word64.nullable.map _
  · exact (Reader.accepts_list (Instruction.accepts_reader levels)).map _

theorem record_fits : record.Fits Draft.setField?
    (fun d key v => { d with extra := d.extra.insert key v.canonical }) keyForms where
  keys_eq := rfl
  isSet_start := by simp [record]
  isSome_iff := by
    simp only [keyForms, addressForm, List.forall_mem_cons, Draft.setField?, Option.isSome_map]
    exact ⟨fun _ => Name.isSome_ofJson?_iff,
      fun _ _ => isSome_nullable?_iff fun _ => isSome_word64?_iff,
      fun _ _ => isSome_list?_iff Instruction.isSome_ofJson?_iff, List.forall_mem_nil _⟩
  isSet_field := by
    simp only [record, List.forall_mem_cons]
    refine ⟨?_, ?_, ?_, List.forall_mem_nil _⟩ <;>
    · intro key d v next h
      unfold Draft.setField? at h
      split at h
      case h_4 => cases h
      all_goals
        obtain ⟨_, -, rfl⟩ := Option.map_eq_some_iff.mp h
        simp
  isSet_carry := by simp [record]
  isSome_finish_iff := by
    rintro ⟨name, address, instructions, extra⟩
    cases name <;> simp [record, keyForms, addressForm, Record.isSetAt, required] <;> rfl

theorem isSome_ofJson?_iff (v : Json) : (ofJson? v).isSome ↔ HasForm v :=
  record_fits.isSome_decode_iff

end Block

/-! ## Functions -/

namespace MachineFunction

def keyForms : List KeyForm :=
  [⟨"name", true, Name.HasForm⟩, ⟨"mapsto", false, IsNullOr IsString⟩,
    ⟨"blocks", false, IsArrayOf Block.HasForm⟩]

/-- The value has the form of a function. -/
def HasForm (v : Json) : Prop := v.IsObject keyForms

theorem accepts_reader (levels : Nat) :
    (record.reader (levels + 5)).Accepts (levels + 5) ofJson? := by
  refine Record.accepts ?_ fun draft key => Reader.accepts_value.map _
  simp only [record, List.forall_mem_cons]
  refine ⟨?_, ?_, ?_, List.forall_mem_nil _⟩ <;> intro d
  · exact (Name.accepts_reader _).map _
  · exact Reader.accepts_string.nullable.map _
  · exact (Reader.accepts_list (Block.accepts_reader levels)).map _

theorem record_fits : record.Fits Draft.setField?
    (fun d key v => { d with extra := d.extra.insert key v.canonical }) keyForms where
  keys_eq := rfl
  isSet_start := by simp [record]
  isSome_iff := by
    simp only [keyForms, List.forall_mem_cons, Draft.setField?, Option.isSome_map]
    exact ⟨fun _ => Name.isSome_ofJson?_iff,
      fun _ _ => isSome_nullable?_iff fun _ => isSome_string?_iff,
      fun _ _ => isSome_list?_iff Block.isSome_ofJson?_iff, List.forall_mem_nil _⟩
  isSet_field := by
    simp only [record, List.forall_mem_cons]
    refine ⟨?_, ?_, ?_, List.forall_mem_nil _⟩ <;>
    · intro key d v next h
      unfold Draft.setField? at h
      split at h
      case h_4 => cases h
      all_goals
        obtain ⟨_, -, rfl⟩ := Option.map_eq_some_iff.mp h
        simp
  isSet_carry := by simp [record]
  isSome_finish_iff := by
    rintro ⟨name, mapsto, blocks, extra⟩
    cases name <;> simp [record, keyForms, Record.isSetAt, required] <;> rfl

theorem isSome_ofJson?_iff (v : Json) : (ofJson? v).isSome ↔ HasForm v :=
  record_fits.isSome_decode_iff

end MachineFunction

/-! ## Programs -/

namespace Program

def keyForms : List KeyForm :=
  [⟨"machine-functions", false, IsArrayOf MachineFunction.HasForm⟩]

/-- The value has the form of a program. -/
def HasForm (v : Json) : Prop := v.IsObject keyForms

theorem accepts_reader (levels : Nat) :
    (record.reader (levels + 7)).Accepts (levels + 7) ofJson? := by
  refine Record.accepts ?_ fun draft key => Reader.accepts_value.map _
  simp only [record, List.forall_mem_cons]
  refine ⟨?_, List.forall_mem_nil _⟩
  intro d
  exact (Reader.accepts_list (MachineFunction.accepts_reader levels)).map _

theorem record_fits : record.Fits Draft.setField?
    (fun d key v => { d with extra := d.extra.insert key v.canonical }) keyForms where
  keys_eq := rfl
  isSet_start := by simp [record]
  isSome_iff := by
    simp only [keyForms, List.forall_mem_cons, Draft.setField?, Option.isSome_map]
    exact ⟨fun _ _ => isSome_list?_iff MachineFunction.isSome_ofJson?_iff, List.forall_mem_nil _⟩
  isSet_field := by
    simp only [record, List.forall_mem_cons]
    refine ⟨?_, List.forall_mem_nil _⟩
    intro key d v next h
    unfold Draft.setField? at h
    split at h
    · obtain ⟨_, -, rfl⟩ := Option.map_eq_some_iff.mp h
      simp
    · cases h
  isSet_carry := by simp [record]
  isSome_finish_iff := by
    rintro ⟨functions, extra⟩
    simp [record, keyForms, Except.toOption]

theorem isSome_ofJson?_iff (v : Json) : (ofJson? v).isSome ↔ HasForm v :=
  record_fits.isSome_decode_iff

/-- A text is read as a program if and only if it holds a value that means one. -/
theorem read_eq_ok_iff {text : String} {p : Program} :
    read text = .ok p ↔ ∃ v, Json.read text = .ok v ∧ ofJson? v = some p :=
  Reader.readAll_eq_ok_iff (decodes_reader 120) (accepts_reader 120)

/-- A text of a value is read as a program if and only if the value has the form of one, whichever
text of the value it is. The program has what the value has for its keys: one function for every
element of the array of functions, and so for the blocks and the instructions. -/
theorem read_iff_hasForm {v : Json} {text : String} (htext : v.HasText text)
    (hfits : v.fits Reader.maxLevels) :
    ((∃ p, read text = .ok p) ↔ HasForm v) ∧ ∀ p, read text = .ok p → p.MeantBy v := by
  have hread : Json.read text = .ok v := htext.read_eq hfits
  have hmeans : ∀ p, read text = .ok p ↔ ofJson? v = some p := by
    intro p
    rw [read_eq_ok_iff, hread]
    constructor
    · rintro ⟨_, hv, hp⟩
      cases hv
      exact hp
    · exact fun hp => ⟨v, rfl, hp⟩
  refine ⟨?_, fun p hp => meantBy_of_ofJson? ((hmeans p).mp hp)⟩
  rw [← isSome_ofJson?_iff, Option.isSome_iff_exists]
  exact exists_congr hmeans

/-- A function without blocks, with a key that nothing is known of and that is spelled by number. -/
theorem read_iff_hasForm_of_escaped_key :
    let v := Json.object [("machine-functions",
      .array [.object [("x", .null), ("name", .natural 7)]])]
    let text := " \x7b\"machine-functions\": [\x7b\"\\u0078\":null , \"name\":7\x7d]\x7d"
    v.HasText text ∧ v.fits Reader.maxLevels ∧ HasForm v ∧
      ∃ p, read text = .ok p ∧ p.MeantBy v := by
  intro v text
  let xKey : Padded := .bare ['"', '\\', 'u', '0', '0', '7', '8', '"']
  let xValue : Padded := ⟨[], ['n', 'u', 'l', 'l'], [' '], List.forall_mem_nil _, isSpace_space⟩
  let nameKey : Padded := .after [' '] isSpace_space (renderString "name")
  let functionsKey : Padded := .bare (renderString "machine-functions")
  have hx : SpelledString "x" xKey.text :=
    ⟨[['\\', 'u', '0', '0', '7', '8']],
      .cons (.unit (n := 120) ⟨rfl, List.all_eq_true.mp rfl, rfl⟩ (by decide)) .nil, rfl⟩
  have hfunction := @SpelledBy.object
    [(("x", .null), ⟨xKey, xValue⟩), (("name", .natural 7), ⟨nameKey, .bare ['7']⟩)] []
    (by simpa using ⟨hx, spelledString_render "name"⟩)
    (by simpa using ⟨.null, .number (n := .natural 7) rfl⟩) (List.forall_mem_nil _)
  have harray := @SpelledBy.array [(_, .bare _)] []
    (by simpa using hfunction) (List.forall_mem_nil _)
  have hprogram := @SpelledBy.object
    [(("machine-functions", _), ⟨functionsKey, .after [' '] isSpace_space _⟩)] []
    (List.forall_mem_singleton.mpr (spelledString_render _))
    (List.forall_mem_singleton.mpr harray) (List.forall_mem_nil _)
  have htext : v.HasText text := by
    refine ⟨.after [' '] isSpace_space _, hprogram, ?_⟩
    rw [← String.ofList_toList (s := text)]
    exact congrArg String.ofList (by decide +kernel)
  have hform : HasForm v := by
    have hfunction : MachineFunction.HasForm (.object [("x", .null), ("name", .natural 7)]) := by
      have hname : Name.HasForm (.natural 7) := .inl ⟨7, by decide, rfl⟩
      exact ⟨_, rfl, by decide, by simpa [MachineFunction.keyForms] using hname⟩
    refine ⟨_, rfl, by decide, ?_⟩
    simpa [keyForms, IsArrayOf] using hfunction
  obtain ⟨hiff, hmeans⟩ := read_iff_hasForm htext rfl
  obtain ⟨p, hp⟩ := hiff.mpr hform
  exact ⟨htext, rfl, hform, p, hp, hmeans p hp⟩

end Program

end CodeMap
