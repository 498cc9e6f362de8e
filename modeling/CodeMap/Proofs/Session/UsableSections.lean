import CodeMap.Proofs.Symbol.Coverage
import CodeMap.Proofs.Symbol.WrittenDump
import CodeMap.Session

/-! # Sections that symbols can lie in

The section of a row is a word: it has no blanks in it, and it is compared as it is with the names
in the settings. So a dump can only ever have addresses for settings that name a section by a word
(`Settings.exists_enters_iff`). Settings are refused if all names are blank
(`Settings.validate_eq_ok_iff`); a name that has blanks around a word, or in it, is not, though no
symbol lies there.
-/

namespace CodeMap

/-- The text is not empty and has no blanks. -/
def Text.IsWord (s : String) : Prop := s.toList ≠ [] ∧ s.toList.all (!isBlank ·)

instance (s : String) : Decidable (Text.IsWord s) :=
  inferInstanceAs (Decidable (s.toList ≠ [] ∧ s.toList.all (!Text.isBlank ·)))

theorem Text.IsWord.not_allBlank {s : String} (h : IsWord s) : ¬allBlank s := by
  intro hblank
  obtain ⟨x, hx⟩ := List.exists_mem_of_ne_nil _ h.1
  have hword : (!isBlank x) = true := List.all_eq_true.mp h.2 x hx
  rw [List.all_eq_true.mp hblank x hx] at hword
  cases hword

/-- The sections of rows are words, and every word is the section of a row. -/
theorem SymbolRow.exists_ofLine?_iff {name : String} :
    (∃ line r, ofLine? line = some r ∧ r.sectionName = name) ↔ Text.IsWord name := by
  constructor
  · rintro ⟨line, r, hrow, rfl⟩
    exact (isWritable_of_parse? hrow).sectionName
  · intro h
    let style : Style := ⟨List.replicate 9 ' ', [' '], ['0'], [' '], List.replicate 8 false,
      .lineFeed, by decide, by decide, by decide, by decide, by decide⟩
    have hzero : (0 : UInt64).toNat < UInt32.size := by decide
    have hwritable : IsWritable ⟨0, name, name⟩ := ⟨hzero, h, h⟩
    refine ⟨String.ofList (columns ⟨0, name, name⟩ style).toLine, ⟨0, name, name⟩, ?_, rfl⟩
    rw [ofLine?_ofList]
    exact hwritable.parse?_columns style

namespace Settings

variable {s : Settings} {line : String}

/-- The line, read by itself, leaves something in the table. -/
def Enters (s : Settings) (line : String) : Prop :=
  ((Session.start s).ingest [line]).table ≠ .empty

/-- The table of a dump is empty if none of its lines is a row in one of the sections. -/
theorem table_ingest_eq_empty_iff {lines : List String} :
    ((Session.start s).ingest lines).table = .empty ↔
      ∀ line ∈ lines, ∀ r, SymbolRow.ofLine? line = some r → r.sectionName ∉ s.sections := by
  rw [Session.ingest, Session.start, SymbolTable.extend, SymbolTable.enter_eq_empty_iff,
    and_iff_right rfl, SymbolTable.accepted, List.filter_eq_nil_iff]
  simp only [SymbolTable.rows, List.mem_filterMap, List.contains_iff_mem]
  constructor
  · intro h line hline r hrow
    exact h r ⟨line, hline, hrow⟩
  · rintro h r ⟨line, hline, hrow⟩
    exact h line hline r hrow

theorem enters_iff :
    s.Enters line ↔ ∃ r, SymbolRow.ofLine? line = some r ∧ r.sectionName ∈ s.sections := by
  rw [Enters, Ne, table_ingest_eq_empty_iff]
  simp

/-- Some line leaves something in the table if one of the sections is named by a word. -/
theorem exists_enters_iff :
    (∃ line, s.Enters line) ↔ ∃ name ∈ s.sections, Text.IsWord name := by
  simp only [enters_iff, ← SymbolRow.exists_ofLine?_iff]
  constructor
  · rintro ⟨line, r, hrow, hmem⟩
    exact ⟨r.sectionName, hmem, line, r, hrow, rfl⟩
  · rintro ⟨name, hmem, line, r, hrow, rfl⟩
    exact ⟨line, r, hrow, hmem⟩

/-- Without such a name the table is empty for every dump. -/
theorem forall_table_eq_empty_iff :
    (∀ lines, ((Session.start s).ingest lines).table = .empty) ↔ ¬∃ line, s.Enters line := by
  simp only [table_ingest_eq_empty_iff, enters_iff, not_exists, not_and]
  constructor
  · intro h line
    exact h [line] line List.mem_cons_self
  · intro h lines line _
    exact h line

/-- With a dumper, settings are valid if one of the names is not blank. -/
theorem validate_eq_ok_iff (hdumper : ¬Text.allBlank s.dumper) :
    s.validate = .ok () ↔ ∃ name ∈ s.sections, ¬Text.allBlank name := by
  have hdefect : s.defect? = if s.sections.all Text.allBlank then some .noSection else none :=
    if_neg hdumper
  have hall : s.sections.all Text.allBlank ↔ ¬∃ name ∈ s.sections, ¬Text.allBlank name := by
    rw [List.all_eq_true]
    constructor
    · exact fun hblank ⟨name, hmem, hn⟩ => hn (hblank name hmem)
    · exact fun hnone name hmem => Decidable.not_not.mp fun hn => hnone ⟨name, hmem, hn⟩
  rw [validate, hdefect]
  by_cases h : s.sections.all Text.allBlank
  · rw [if_pos h]
    exact iff_of_false nofun (hall.mp h)
  · rw [if_neg h]
    exact iff_of_true rfl (Decidable.not_not.mp (mt hall.mpr h))

/-- **Valid settings and usable ones.** With a dumper, some line of a dump leaves something in the
table if one of the sections is named by a word, and settings of this kind are valid. The converse,
that valid settings are of this kind, holds if one of the names is a word or all are blank, and only
then. -/
theorem usable_iff_word (hdumper : ¬Text.allBlank s.dumper) :
    ((∃ line, s.Enters line) ↔ ∃ name ∈ s.sections, Text.IsWord name) ∧
    ((∀ lines, ((Session.start s).ingest lines).table = .empty) ↔ ¬∃ line, s.Enters line) ∧
    ((∃ line, s.Enters line) → s.validate = .ok ()) ∧
    ((s.validate = .ok () → ∃ line, s.Enters line) ↔
      (∃ name ∈ s.sections, Text.IsWord name) ∨ ∀ name ∈ s.sections, Text.allBlank name) := by
  rw [exists_enters_iff, validate_eq_ok_iff hdumper, forall_table_eq_empty_iff, exists_enters_iff]
  refine ⟨Iff.rfl, Iff.rfl, ?_, ?_⟩
  · rintro ⟨name, hmem, hword⟩
    exact ⟨name, hmem, hword.not_allBlank⟩
  · constructor
    · intro h
      by_cases hblank : ∃ name ∈ s.sections, ¬Text.allBlank name
      · exact .inl (h hblank)
      · exact .inr fun name hmem => Decidable.not_not.mp fun hn => hblank ⟨name, hmem, hn⟩
    · rintro (hword | hblank)
      · exact fun _ => hword
      · exact fun ⟨name, hmem, hn⟩ => absurd (hblank name hmem) hn

/-- A name with a blank inside and a word. -/
theorem usable_iff_word_of_two_names :
    let s : Settings := { standard with sections := ["a b", ".text"] }
    ¬Text.allBlank s.dumper ∧ s.validate = .ok () ∧ ∃ line, s.Enters line := by
  intro s
  have hdumper : ¬Text.allBlank s.dumper := by decide
  obtain ⟨husable, -, hvalid, -⟩ := usable_iff_word hdumper
  have henters : ∃ line, s.Enters line :=
    husable.mpr ⟨".text", List.mem_cons_of_mem _ List.mem_cons_self, by decide⟩
  exact ⟨hdumper, hvalid henters, henters⟩

/-- A name with a blank before it is valid, and no symbol ever lies in the section. -/
theorem validate_of_padded_name :
    let s : Settings := { standard with sections := [" .text"] }
    ¬Text.allBlank s.dumper ∧ s.validate = .ok () ∧ (¬∃ line, s.Enters line) ∧
      ∀ lines, ((Session.start s).ingest lines).table = .empty := by
  intro s
  have hdumper : ¬Text.allBlank s.dumper := by decide
  have hvalid : s.validate = .ok () :=
    (validate_eq_ok_iff hdumper).mpr ⟨" .text", List.mem_singleton_self _, by decide⟩
  have hunusable : ¬∃ line, s.Enters line := by
    rw [exists_enters_iff]
    rintro ⟨name, hmem, hword⟩
    obtain rfl := List.mem_singleton.mp hmem
    revert hword
    decide
  exact ⟨hdumper, hvalid, hunusable, forall_table_eq_empty_iff.mpr hunusable⟩

end Settings

end CodeMap
