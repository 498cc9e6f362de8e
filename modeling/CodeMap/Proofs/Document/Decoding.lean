import CodeMap.Proofs.Document.Extras
import CodeMap.Proofs.Json.Decoding

/-! # Documents as values

`Program.ofJson?` tells from a JSON value whether it is a program document, and of which program. A
text that is read as a program holds a value, and this value means the program
(`Program.exists_value_of_read`). What all values inside a document have passes on to what the
program carries along (`PassesOn`): a program that was read carries along members as a reader gives
them, and integers only if its text has no other numbers.
-/

namespace CodeMap

open Json

theorem Name.decodes_reader (levels : Nat) : (Name.reader levels).Decodes levels Name.ofJson? := by
  constructor
  intro s rest n hrun
  simp only [reader] at hrun
  split at hrun
  · cases hrun
  · next v _ hv =>
    split at hrun
    · next hname =>
      cases hrun
      exact ⟨v, hv, hname⟩
    · cases hrun

/-! ## Extras of a draft -/

/-- What values have passes on to the members that are carried along: an empty dictionary has it, a
value that is put into one keeps it, and the values inside brackets have it from their array or
object. -/
structure PassesOn (Q : Nat → Json → Prop) (E : Extra → Prop) : Prop where
  empty (part : DocumentPart) : E (part, .empty)
  insert {part : DocumentPart} {extra : Dict Json} {key : String} {v : Json} :
    E (part, extra) → key ∉ part.keys → Q part.levels v →
      E (part, extra.insert key v.canonical)
  item {levels : Nat} {items : List Json} :
    Q (levels + 1) (.array items) → ∀ v ∈ items, Q levels v
  member {levels : Nat} {ms : List (String × Json)} :
    Q (levels + 1) (.object ms) → ∀ m ∈ ms, Q levels m.2

namespace PassesOn

variable {σ α : Type} {r : Record σ α} {field : String → σ → Json → Option σ}
  {carry : σ → String → Json → σ} {Q : Nat → Json → Prop} {E : Extra → Prop}

/-- A draft has it in its own members, if they are put in one by one, and in those of its parts, if
every field sees to it. -/
theorem exists_draft (hpass : PassesOn Q E) (part : DocumentPart) (extra : σ → Dict Json)
    (inner : σ → List Extra) {v : Json} {a : α} (h : r.decode field carry v = some a)
    (hv : Q (part.levels + 1) v) (hkeys : r.keys = part.keys)
    (hstart : extra r.start = .empty ∧ inner r.start = [])
    (hfield : ∀ key d v next, Q part.levels v → (∀ e ∈ inner d, E e) →
      field key d v = some next → extra next = extra d ∧ ∀ e ∈ inner next, E e)
    (hcarry : ∀ key d v, extra (carry d key v) = (extra d).insert key v.canonical ∧
      inner (carry d key v) = inner d) :
    ∃ d, (∀ e ∈ (part, extra d) :: inner d, E e) ∧ r.finish d = .ok a := by
  simp only [List.forall_mem_cons]
  refine Record.exists_draft h (fun ms hms => hpass.member (hms ▸ hv)) ?_ ?_ ?_
  · rw [hstart.1, hstart.2]
    exact ⟨hpass.empty part, nofun⟩
  · rintro key d v next ⟨hextra, hinner⟩ hv hnext
    obtain ⟨hsame, hnew⟩ := hfield key d v next hv hinner hnext
    exact ⟨hsame ▸ hextra, hnew⟩
  · rintro key d v ⟨hextra, hinner⟩ hv hkey
    rw [(hcarry key d v).1, (hcarry key d v).2]
    exact ⟨hpass.insert hextra (hkeys ▸ hkey) hv, hinner⟩

/-- The parts in an array have it, if each of them does. -/
theorem forall_list? (hpass : PassesOn Q E) {decode : Json → Option α} {extras : α → List Extra}
    {levels : Nat} (hitem : ∀ {w a}, Q levels w → decode w = some a → ∀ e ∈ extras a, E e)
    {v : Json} (hv : Q (levels + 1) v) {as : List α} (h : list? decode v = some as) :
    ∀ e ∈ as.flatMap extras, E e := by
  intro e he
  obtain ⟨a, ha, he⟩ := List.mem_flatMap.mp he
  obtain ⟨items, rfl, w, hw, hdecode⟩ := exists_of_mem_list? h ha
  exact hitem (hpass.item hv w hw) hdecode e he

end PassesOn

section

variable {Q : Nat → Json → Prop} {E : Extra → Prop}

/-! ## Instructions -/

namespace Instruction

/-- What the value of a field makes of a draft. -/
def Draft.setField? (key : String) (d : Draft) (v : Json) : Option Draft :=
  match key with
  | "index" => v.word32?.map fun n => { d with index := some n }
  | "size" => v.word64?.map fun n => { d with size := some n }
  | "address" => (nullable? word64? v).map fun a => { d with address := some a }
  | _ => none

/-- The instruction that a value means. -/
def ofJson? : Json → Option Instruction :=
  record.decode Draft.setField? fun d key v =>
    { d with extra := d.extra.insert key v.canonical }

theorem decodes_reader (levels : Nat) :
    (record.reader (levels + 1)).Decodes (levels + 1) ofJson? := by
  refine Record.decodes rfl ?_ fun draft key => Reader.decodes_value.map _
  simp only [record, List.forall_mem_cons]
  refine ⟨?_, ?_, ?_, nofun⟩ <;> intro d
  · exact Reader.decodes_word32.map _
  · exact Reader.decodes_word64.map _
  · exact (Reader.decodes_word64.nullable rfl).map _

/-- A field has no say in what is carried along. -/
theorem Draft.extra_setField? {key : String} {d next : Draft} {v : Json}
    (h : d.setField? key v = some next) : next.extra = d.extra := by
  unfold setField? at h
  split at h
  case h_4 => cases h
  all_goals
    obtain ⟨_, -, rfl⟩ := Option.map_eq_some_iff.mp h
    rfl

theorem Draft.extras_of_finish {d : Draft} {i : Instruction} (h : record.finish d = .ok i) :
    i.extras = [(.instruction, d.extra)] := by
  obtain ⟨index, size, address, extra⟩ := d
  cases index with
  | none => cases h
  | some index =>
    cases size with
    | none => cases h
    | some size =>
      cases h
      rfl

theorem forall_extras (hpass : PassesOn Q E) {v : Json} {i : Instruction} (hv : Q 121 v)
    (h : ofJson? v = some i) : ∀ e ∈ i.extras, E e := by
  obtain ⟨d, hd, hfinish⟩ := hpass.exists_draft .instruction Draft.extra (fun _ => []) h hv rfl
    ⟨rfl, rfl⟩ (fun key d v next _ _ h => ⟨Draft.extra_setField? h, nofun⟩) fun _ _ _ => ⟨rfl, rfl⟩
  exact Draft.extras_of_finish hfinish ▸ hd

end Instruction

/-! ## Blocks -/

namespace Block

/-- What the value of a field makes of a draft. -/
def Draft.setField? (key : String) (d : Draft) (v : Json) : Option Draft :=
  match key with
  | "name" => (Name.ofJson? v).map fun n => { d with name := some n }
  | "address" => (nullable? word64? v).map fun a => { d with address := some a }
  | "instructions" =>
    (list? Instruction.ofJson? v).map fun is => { d with instructions := some is }
  | _ => none

/-- The block that a value means. -/
def ofJson? : Json → Option Block :=
  record.decode Draft.setField? fun d key v =>
    { d with extra := d.extra.insert key v.canonical }

theorem decodes_reader (levels : Nat) :
    (record.reader (levels + 3)).Decodes (levels + 3) ofJson? := by
  refine Record.decodes rfl ?_ fun draft key => Reader.decodes_value.map _
  simp only [record, List.forall_mem_cons]
  refine ⟨?_, ?_, ?_, nofun⟩ <;> intro d
  · exact (Name.decodes_reader _).map _
  · exact (Reader.decodes_word64.nullable rfl).map _
  · exact (Reader.decodes_list (Instruction.decodes_reader levels)).map _

/-- What the parts of a draft carry along. -/
def Draft.inner (d : Draft) : List Extra := (d.instructions.getD []).flatMap Instruction.extras

theorem Draft.forall_setField? (hpass : PassesOn Q E) {key : String} {d next : Draft} {v : Json}
    (hv : Q 122 v) (hd : ∀ e ∈ d.inner, E e)
    (h : d.setField? key v = some next) :
    next.extra = d.extra ∧ ∀ e ∈ next.inner, E e := by
  unfold setField? at h
  split at h
  case h_3 =>
    obtain ⟨is, his, rfl⟩ := Option.map_eq_some_iff.mp h
    exact ⟨rfl, hpass.forall_list? (Instruction.forall_extras hpass) hv his⟩
  case h_4 => cases h
  all_goals
    obtain ⟨_, -, rfl⟩ := Option.map_eq_some_iff.mp h
    exact ⟨rfl, hd⟩

theorem Draft.extras_of_finish {d : Draft} {b : Block} (h : record.finish d = .ok b) :
    b.extras = (.block, d.extra) :: d.inner := by
  obtain ⟨name, _, instructions, extra⟩ := d
  cases name with
  | none => cases h
  | some name =>
    cases h
    rfl

theorem forall_extras (hpass : PassesOn Q E) {v : Json} {b : Block} (hv : Q 123 v)
    (h : ofJson? v = some b) : ∀ e ∈ b.extras, E e := by
  obtain ⟨d, hd, hfinish⟩ := hpass.exists_draft .block Draft.extra Draft.inner h hv rfl
    ⟨rfl, rfl⟩ (fun _ _ _ _ => Draft.forall_setField? hpass) fun _ _ _ => ⟨rfl, rfl⟩
  exact Draft.extras_of_finish hfinish ▸ hd

end Block

/-! ## Functions -/

namespace MachineFunction

/-- What the value of a field makes of a draft. -/
def Draft.setField? (key : String) (d : Draft) (v : Json) : Option Draft :=
  match key with
  | "name" => (Name.ofJson? v).map fun n => { d with name := some n }
  | "mapsto" => (nullable? string? v).map fun s => { d with mapsto := some s }
  | "blocks" => (list? Block.ofJson? v).map fun bs => { d with blocks := some bs }
  | _ => none

/-- The function that a value means. -/
def ofJson? : Json → Option MachineFunction :=
  record.decode Draft.setField? fun d key v =>
    { d with extra := d.extra.insert key v.canonical }

theorem decodes_reader (levels : Nat) :
    (record.reader (levels + 5)).Decodes (levels + 5) ofJson? := by
  refine Record.decodes rfl ?_ fun draft key => Reader.decodes_value.map _
  simp only [record, List.forall_mem_cons]
  refine ⟨?_, ?_, ?_, nofun⟩ <;> intro d
  · exact (Name.decodes_reader _).map _
  · exact (Reader.decodes_string.nullable rfl).map _
  · exact (Reader.decodes_list (Block.decodes_reader levels)).map _

/-- What the parts of a draft carry along. -/
def Draft.inner (d : Draft) : List Extra := (d.blocks.getD []).flatMap Block.extras

theorem Draft.forall_setField? (hpass : PassesOn Q E) {key : String} {d next : Draft} {v : Json}
    (hv : Q 124 v) (hd : ∀ e ∈ d.inner, E e)
    (h : d.setField? key v = some next) :
    next.extra = d.extra ∧ ∀ e ∈ next.inner, E e := by
  unfold setField? at h
  split at h
  case h_3 =>
    obtain ⟨bs, hbs, rfl⟩ := Option.map_eq_some_iff.mp h
    exact ⟨rfl, hpass.forall_list? (Block.forall_extras hpass) hv hbs⟩
  case h_4 => cases h
  all_goals
    obtain ⟨_, -, rfl⟩ := Option.map_eq_some_iff.mp h
    exact ⟨rfl, hd⟩

theorem Draft.extras_of_finish {d : Draft} {f : MachineFunction} (h : record.finish d = .ok f) :
    f.extras = (.function, d.extra) :: d.inner := by
  obtain ⟨name, _, blocks, extra⟩ := d
  cases name with
  | none => cases h
  | some name =>
    cases h
    rfl

theorem forall_extras (hpass : PassesOn Q E) {v : Json} {f : MachineFunction} (hv : Q 125 v)
    (h : ofJson? v = some f) : ∀ e ∈ f.extras, E e := by
  obtain ⟨d, hd, hfinish⟩ := hpass.exists_draft .function Draft.extra Draft.inner h hv rfl
    ⟨rfl, rfl⟩ (fun _ _ _ _ => Draft.forall_setField? hpass) fun _ _ _ => ⟨rfl, rfl⟩
  exact Draft.extras_of_finish hfinish ▸ hd

end MachineFunction

/-! ## Programs -/

namespace Program

/-- What the value of a field makes of a draft. -/
def Draft.setField? (key : String) (d : Draft) (v : Json) : Option Draft :=
  match key with
  | "machine-functions" =>
    (list? MachineFunction.ofJson? v).map fun fs => { d with functions := some fs }
  | _ => none

/-- The program that a value means. -/
def ofJson? : Json → Option Program :=
  record.decode Draft.setField? fun d key v =>
    { d with extra := d.extra.insert key v.canonical }

theorem decodes_reader (levels : Nat) :
    (record.reader (levels + 7)).Decodes (levels + 7) ofJson? := by
  refine Record.decodes rfl ?_ fun draft key => Reader.decodes_value.map _
  simp only [record, List.forall_mem_cons]
  refine ⟨?_, nofun⟩
  intro d
  exact (Reader.decodes_list (MachineFunction.decodes_reader levels)).map _

/-- What the parts of a draft carry along. -/
def Draft.inner (d : Draft) : List Extra := (d.functions.getD []).flatMap MachineFunction.extras

theorem Draft.forall_setField? (hpass : PassesOn Q E) {key : String} {d next : Draft} {v : Json}
    (hv : Q 126 v) (h : d.setField? key v = some next) :
    next.extra = d.extra ∧ ∀ e ∈ next.inner, E e := by
  unfold setField? at h
  split at h
  · obtain ⟨fs, hfs, rfl⟩ := Option.map_eq_some_iff.mp h
    exact ⟨rfl, hpass.forall_list? (MachineFunction.forall_extras hpass) hv hfs⟩
  · cases h

theorem forall_extras (hpass : PassesOn Q E) {v : Json} {p : Program} (hv : Q Reader.maxLevels v)
    (h : ofJson? v = some p) : ∀ e ∈ p.extras, E e := by
  obtain ⟨d, hd, hfinish⟩ := hpass.exists_draft .program Draft.extra Draft.inner h hv rfl
    ⟨rfl, rfl⟩ (fun _ _ _ _ hv _ => Draft.forall_setField? hpass hv) fun _ _ _ => ⟨rfl, rfl⟩
  cases hfinish
  exact hd

/-- A text that is read as a program holds a value, and the value means the program. -/
theorem exists_value_of_read {text : String} {p : Program} (h : read text = .ok p) :
    ∃ v, Json.read text = .ok v ∧ ofJson? v = some p :=
  (decodes_reader 120).read_eq_ok h

end Program

end

/-! ## Programs that were read -/

theorem passesOn_isCarried : PassesOn (fun levels v => v.fits levels) Extra.IsCarried where
  empty part := carried_empty part.keys part.levels
  insert h hkey hv := Carried.insert h hkey hv
  item h v hv := List.all_eq_true.mp h v hv
  member h m hm := List.all_eq_true.mp h m hm

namespace Program

/-- A program that was read comes back from its printed form, if it carries along integers only. -/
theorem isStorable_of_read {text : String} {p : Program} (h : read text = .ok p)
    (hi : p.isIntegral) : p.IsStorable := by
  obtain ⟨v, hv, hp⟩ := exists_value_of_read h
  exact fun e he =>
    ⟨forall_extras passesOn_isCarried (fits_of_read hv) hp e he, List.all_eq_true.mp hi e he⟩

end Program

end CodeMap
