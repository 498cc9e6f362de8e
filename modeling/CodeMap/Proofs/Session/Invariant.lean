import CodeMap.Proofs.Session.Atomicity
import CodeMap.Proofs.Symbol.LastRows
import CodeMap.Proofs.Symbol.WrittenDump

/-! # What every session keeps

A session answers for the lines that it has taken (`Session.AnswersFor`): its table has no more
labels than addresses were counted, no more addresses were counted than rows, and no more rows than
lines; every label is a word, has an address of eight digits, and has it from its last line. Taking
lines keeps this (`Session.AnswersFor.ingest`), and a step does nothing else to a session. So it
holds after every history, whichever of its steps have failed (`Process.session_answersFor`).
-/

namespace CodeMap

/-- A label that a line gives an address to is a word, and the address has eight digits. -/
theorem SymbolTable.LastBinds.isWritable {sections lines : List String} {label : String}
    {address : UInt64} (h : LastBinds sections lines label address) :
    ∃ s ∈ sections, SymbolRow.IsWritable ⟨address, s, label⟩ := by
  obtain ⟨-, ⟨s, hs, hrow⟩, -⟩ := h
  exact ⟨s, hs, SymbolRow.isWritable_of_parse? hrow⟩

namespace Session

/-- What the table and the counts of a session say of the lines that it has taken. -/
structure AnswersFor (s : Session) (lines : List String) : Prop where
  /-- A label with several rows counts for each of them. -/
  size_le : s.table.size ≤ s.counts.addresses
  addresses_le : s.counts.addresses ≤ s.counts.rows
  rows_le : s.counts.rows ≤ s.counts.lines
  empty_iff : s.table = .empty ↔ s.counts.addresses = 0
  word_of_contains : ∀ label, s.table.contains label →
    label ≠ "" ∧ ∀ x ∈ label.toList, ¬Text.isBlank x
  address_lt : ∀ label address, s.table.get? label = some address → address.toNat < 2 ^ 32
  get?_eq_some_iff : ∀ label address, s.table.get? label = some address ↔
    SymbolTable.LastBinds s.settings.sections lines label address

variable {s : Session} {lines : List String}

theorem answersFor_start (settings : Settings) : (start settings).AnswersFor [] where
  size_le := Nat.le_refl 0
  addresses_le := Nat.le_refl 0
  rows_le := Nat.le_refl 0
  empty_iff := iff_of_true rfl rfl
  word_of_contains _ h := by cases h
  address_lt _ _ h := by cases SymbolTable.get?_empty _ ▸ h
  get?_eq_some_iff _ _ := @SymbolTable.get?_ofLines settings.sections [] _ _

/-- A session that answers for its lines answers for more of them. -/
theorem AnswersFor.ingest (h : s.AnswersFor lines) (more : List String) :
    (s.ingest more).AnswersFor (lines ++ more) := by
  let sections := s.settings.sections
  have hget (label address) : (s.ingest more).table.get? label = some address ↔
      SymbolTable.LastBinds sections (lines ++ more) label address := by
    rw [SymbolTable.lastBinds_append, ← h.get?_eq_some_iff]
    exact SymbolTable.get?_extend
  have haccepted := SymbolTable.length_accepted_le sections more
  constructor
  case get?_eq_some_iff => exact hget
  case size_le =>
    exact Nat.le_trans (s.table.size_enter_le _) (Nat.add_le_add_right h.size_le _)
  case addresses_le => exact Nat.add_le_add h.addresses_le haccepted
  case rows_le => exact Nat.add_le_add h.rows_le (SymbolTable.length_rows_le more)
  case empty_iff =>
    show s.table.enter (SymbolTable.accepted sections more) = .empty ↔
      s.counts.addresses + (SymbolTable.accepted sections more).length = 0
    rw [SymbolTable.enter_eq_empty_iff, h.empty_iff, Nat.add_eq_zero_iff, List.length_eq_zero_iff]
  case word_of_contains =>
    intro label hlabel
    obtain ⟨address, haddress⟩ := SymbolTable.contains_iff.mp hlabel
    obtain ⟨_, -, hrow⟩ := ((hget label address).mp haddress).isWritable
    refine ⟨?_, fun x => SymbolRow.not_blank_of_mem_word hrow.label.2⟩
    rintro rfl
    exact hrow.label.1 rfl
  case address_lt =>
    intro label address haddress
    obtain ⟨_, -, hrow⟩ := ((hget label address).mp haddress).isWritable
    exact hrow.address

/-- A step brings in its lines and does nothing else to the session. -/
theorem AnswersFor.step {w : Workspace} (h : w.session.AnswersFor lines) (step : Step) :
    (step.after w).session.AnswersFor (lines ++ step.lines w.session.settings) := by
  rw [step.session_after]
  exact h.ingest _

theorem AnswersFor.after {w : Workspace} (h : w.session.AnswersFor lines) (history : List Step) :
    (w.after history).session.AnswersFor
      (lines ++ history.flatMap (Step.lines w.session.settings)) := by
  induction history generalizing w lines with
  | nil => rwa [List.flatMap_nil, List.append_nil]
  | cons step rest ih =>
    have hrest := ih (h.step step)
    rwa [Workspace.settings_after, List.append_assoc, ← List.flatMap_cons] at hrest

end Session

/-- **The invariant of a session.** Whatever is done with a session from its start on, and whichever
of the steps fail on the way, it answers for the lines that it was given and those of the dumps that
were read, under the settings that it started with. -/
theorem Process.session_answersFor (settings : Settings) (p : Program) (history : List Step) :
    let s := ((Process.start ⟨.start settings, p⟩).after history).workspace.session
    s.settings = settings ∧ s.AnswersFor (history.flatMap (Step.lines settings)) := by
  intro s
  let w : Workspace := ⟨.start settings, p⟩
  have hs : s = (w.after history).session :=
    congrArg Workspace.session (workspace_after (.start w) history)
  have hstart : w.session.AnswersFor [] := Session.answersFor_start settings
  rw [hs]
  exact ⟨w.settings_after_history history, hstart.after history⟩

end CodeMap
