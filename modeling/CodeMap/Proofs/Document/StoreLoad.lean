import CodeMap.Proofs.Document.Decoding
import CodeMap.Proofs.Document.RoundTrip
import CodeMap.Proofs.File.Writing
import CodeMap.Proofs.Text.Utf8
import CodeMap.Session

/-! # Documents stored and loaded

A storable program that is stored at a path is loaded from there. Programs that come about from
documents and by building and placing (`Program.Obtained`) are storable.
-/

namespace CodeMap

/-! ## One program and one file -/

theorem Program.result_ofFile (path : String) (file : FileRead) :
    (ofFile path file).result = file.parse read := by
  rw [ofFile, Traced.result_bind]
  cases h : file.parse read <;> rfl

namespace FileTree

variable {t : FileTree} {path : String} {place : Place} {p : Program}

theorem store_eq_put (h : t.target path = .ok place) (hd : t.device? place = none) (p : Program) :
    t.store path p = .ok (t.put place (Text.encode p.fileText)) := by
  have hrefusal : t.refusal? path = none := by rw [refusal?, h]
  rw [store, hrefusal, write_eq_put h hd]

/-- A file that holds a text is loaded as the program that the text holds. -/
theorem load_of_read {text : String} (h : t.read path = .ok (Text.encode text))
    (hp : Program.read text = .ok p) : t.load path = .ok p := by
  rw [load, Program.result_ofFile, h, FileRead.parse_encode, hp]
  rfl

/-- A program is loaded from the file that it was stored in. -/
theorem load_put (hp : p.IsStorable) (h : t.target path = .ok place)
    (hd : t.device? place = none) :
    (t.put place (Text.encode p.fileText)).load path = .ok p :=
  load_of_read (read_put h hd _) (Program.read_fileText hp)

/-- No program is loaded from an empty file, and so from no device. -/
theorem device?_eq_none_of_load (hp : t.load path = .ok p) (h : t.target path = .ok place) :
    t.device? place = none := by
  cases hd : t.device? place with
  | none => rfl
  | some d =>
    obtain ⟨refusal, hread⟩ : ∃ refusal, Program.read "" = .error refusal := ⟨_, rfl⟩
    have hempty : t.load path = (Program.read "").mapError Failure.ofRefusal := by
      rw [load, Program.result_ofFile, read_of_device h hd]
      exact FileRead.parse_encode "" Program.read
    rw [hempty, hread] at hp
    cases hp

/-- A program that was loaded is storable, if it carries along integers only. -/
theorem isStorable_of_load (hp : t.load path = .ok p) (hi : p.isIntegral) : p.IsStorable := by
  rw [load, Program.result_ofFile, FileRead.parse] at hp
  split at hp
  · cases hp
  · split at hp
    · next hread =>
      cases hp
      exact Program.isStorable_of_read hread hi
    · cases hp

end FileTree

/-! ## All programs -/

/-- The function is made of blocks that are given by their sizes. -/
def MachineFunction.IsBuilt (f : MachineFunction) : Prop :=
  ∃ name mapsto blocks, f = ofBlocks name mapsto blocks ∧
    ∀ b ∈ blocks, ∃ name sizes, b = Block.ofSizes name sizes

namespace Program

/-- A program that was read from a document or was built, and then was placed any number of times.
Of a document that was read the numbers without a meaning have to be integers, since only those are
sure to be read again as they were. -/
inductive Obtained : Program → Prop
  | read {text : String} {p : Program} (h : Program.read text = .ok p) (hi : p.isIntegral) :
    Obtained p
  | built {functions : List MachineFunction} (h : ∀ f ∈ functions, f.IsBuilt) :
    Obtained ⟨functions, .empty⟩
  | placed {p : Program} (h : Obtained p) (t : SymbolTable) : Obtained (p.place t)

/-- What is built carries nothing along. -/
theorem isStorable_of_isBuilt {functions : List MachineFunction}
    (h : ∀ f ∈ functions, f.IsBuilt) : (Program.mk functions .empty).IsStorable := by
  have hempty (part : DocumentPart) : Extra.IsStorable (part, .empty) :=
    ⟨Json.carried_empty part.keys part.levels, rfl⟩
  refine List.forall_mem_cons.mpr ⟨hempty .program, fun e he => ?_⟩
  obtain ⟨f, hf, he⟩ := List.mem_flatMap.mp he
  obtain ⟨name, mapsto, blocks, rfl, hblocks⟩ := h f hf
  rcases List.mem_cons.mp he with rfl | he
  · exact hempty .function
  · obtain ⟨b, hb, he⟩ := List.mem_flatMap.mp he
    obtain ⟨name, sizes, rfl⟩ := hblocks b hb
    rcases List.mem_cons.mp he with rfl | he
    · exact hempty .block
    · obtain ⟨i, hmem, he⟩ := List.mem_flatMap.mp he
      obtain ⟨s, -, rfl⟩ := List.mem_map.mp hmem
      obtain rfl := List.mem_singleton.mp he
      exact hempty .instruction

theorem Obtained.isStorable {p : Program} (h : p.Obtained) : p.IsStorable := by
  induction h with
  | read h hi => exact isStorable_of_read h hi
  | built h => exact isStorable_of_isBuilt h
  | placed _ t ih => exact ih.place t

/-- Storing and loading gives a program back, as a text and as a file. The file has to be one that
can be written and is no device, which keeps nothing. -/
theorem store_load {p : Program} (h : p.Obtained) :
    Program.read p.write = .ok p ∧
      ∀ (t : FileTree) (path : String) (place : Place), t.target path = .ok place →
        t.device? place = none → ∃ after, t.store path p = .ok after ∧ after.load path = .ok p := by
  refine ⟨read_write h.isStorable, ?_⟩
  intro t path place htarget hdevice
  exact ⟨_, FileTree.store_eq_put htarget hdevice p,
    FileTree.load_put h.isStorable htarget hdevice⟩

theorem store_load_of_numbered_function :
    let p : Program :=
      ⟨[⟨.number 7, some "main", [], Dict.ofList [("level", .array [.number (.negative 0)])]⟩],
        .empty⟩
    let q := p.place (SymbolTable.empty.insert "main" 64)
    p.isIntegral ∧ Program.read q.write = .ok q ∧
      ∃ after, FileTree.empty.store "main.pml" q = .ok after ∧ after.load "main.pml" = .ok q := by
  intro p q
  have hread : (Program.read "\x7b\"machine-functions\": [\x7b\"level\": [-1], \"name\": 7,
      \"mapsto\": \"main\"\x7d]\x7d").toOption = some p := by decide +kernel
  have hp : p.Obtained := .read (Json.ok_of_toOption_eq_some hread) rfl
  obtain ⟨hwrite, hfile⟩ := store_load (.placed hp (SymbolTable.empty.insert "main" 64))
  have htarget : (FileTree.empty.target "main.pml").toOption = some ["main.pml"] := by
    decide +kernel
  exact ⟨rfl, hwrite, hfile .empty "main.pml" _ (Json.ok_of_toOption_eq_some htarget) rfl⟩

end Program

end CodeMap
