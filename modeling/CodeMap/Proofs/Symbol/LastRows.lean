import CodeMap.Placement.Report
import CodeMap.Proofs.Symbol.Coverage
import Mathlib.Data.List.Induction
import Mathlib.Logic.Equiv.Basic

/-! # The last row of a label

Of all the lines of a dump that are rows in one of the sections and carry a label, only the last one
counts (`LastBinds`): its address is what the table has for the label. So dumps in which these last
rows have the same addresses give the same table, whatever else they hold and in whatever order
(`last_rows_decide`).
-/

namespace CodeMap.SymbolTable

variable {sections lines more : List String} {line label : String} {address : UInt64}
  {t : SymbolTable}

/-! ## Lines and labels -/

/-- The line is a row in one of the sections, and it gives the label an address. -/
def Binds (sections : List String) (line label : String) (address : UInt64) : Prop :=
  ∃ s ∈ sections, SymbolRow.ofLine? line = some ⟨address, s, label⟩

/-- The row that a line is, if it is one in one of the sections. -/
def acceptedRow? (sections : List String) (line : String) : Option SymbolRow :=
  (SymbolRow.ofLine? line).filter fun r => sections.contains r.sectionName

/-- Of the lines that give the label an address, the last one gives it this address. -/
inductive LastBinds (sections lines : List String) (label : String) (address : UInt64) : Prop where
  | intro {i : Nat} {line : String} (line_eq : lines[i]? = some line)
    (binds : Binds sections line label address)
    (last : ∀ j > i, ∀ later, lines[j]? = some later → ∀ other, ¬Binds sections later label other)

theorem accepted_eq_filterMap : accepted sections lines = lines.filterMap (acceptedRow? sections) :=
  List.filter_filterMap

theorem binds_iff : Binds sections line label address ↔
    ∃ r, acceptedRow? sections line = some r ∧ r.label = label ∧ r.address = address := by
  simp only [acceptedRow?, Option.filter_eq_some_iff, List.contains_iff_mem]
  constructor
  · rintro ⟨s, hs, hline⟩
    exact ⟨_, ⟨hline, hs⟩, rfl, rfl⟩
  · rintro ⟨r, ⟨hline, hs⟩, rfl, rfl⟩
    exact ⟨r.sectionName, hs, hline⟩

/-- A line that is read decides the label that it gives an address to, and no other one. -/
theorem get?_extend_singleton :
    (t.extend sections [line]).get? label = some address ↔
      Binds sections line label address ∨
        (∀ other, ¬Binds sections line label other) ∧ t.get? label = some address := by
  simp only [extend, accepted_eq_filterMap, List.filterMap_cons, binds_iff]
  cases acceptedRow? sections line with
  | none => simp
  | some r => by_cases hlabel : r.label = label <;> simp [hlabel, get?_insert]

/-! ## The last one counts -/

theorem not_lastBinds_nil : ¬LastBinds sections [] label address := by
  rintro ⟨hline, -, -⟩
  cases hline

theorem getElem?_concat_eq_some {later : String} {j : Nat} :
    (lines ++ [line])[j]? = some later ↔
      lines[j]? = some later ∨ j = lines.length ∧ line = later := by
  rw [List.getElem?_append]
  grind

/-- A line more at the end decides the labels that it gives an address to. -/
theorem lastBinds_concat :
    LastBinds sections (lines ++ [line]) label address ↔
      Binds sections line label address ∨
        (∀ other, ¬Binds sections line label other) ∧
          LastBinds sections lines label address := by
  constructor
  · rintro ⟨hfirst, hbinds, hlater⟩
    rcases getElem?_concat_eq_some.mp hfirst with hfirst | ⟨rfl, rfl⟩
    · have hi := (List.getElem?_eq_some_iff.mp hfirst).1
      refine .inr ⟨hlater _ hi line ?_, hfirst, hbinds, fun j hj later h => hlater j hj later ?_⟩
      · exact getElem?_concat_eq_some.mpr (.inr ⟨rfl, rfl⟩)
      · exact getElem?_concat_eq_some.mpr (.inl h)
    · exact .inl hbinds
  · rintro (hbinds | ⟨hnot, hfirst, hbinds, hlater⟩)
    · refine ⟨getElem?_concat_eq_some.mpr (.inr ⟨rfl, rfl⟩), hbinds, fun j hj later h => ?_⟩
      rcases getElem?_concat_eq_some.mp h with h | ⟨rfl, -⟩
      · exact absurd (List.getElem?_eq_some_iff.mp h).1 (Nat.lt_asymm hj)
      · exact absurd hj (Nat.lt_irrefl _)
    · refine ⟨getElem?_concat_eq_some.mpr (.inl hfirst), hbinds, fun j hj later h => ?_⟩
      rcases getElem?_concat_eq_some.mp h with h | ⟨-, rfl⟩
      · exact hlater j hj later h
      · exact hnot

/-- The address of a label in a table that a dump was read into. -/
theorem get?_extend :
    (t.extend sections lines).get? label = some address ↔
      LastBinds sections lines label address ∨
        (∀ line ∈ lines, ∀ other, ¬Binds sections line label other) ∧
          t.get? label = some address := by
  induction lines using List.reverseRecOn generalizing address with
  | nil => simp [not_lastBinds_nil]
  | append_singleton lines line ih =>
    rw [extend_append, get?_extend_singleton, ih, lastBinds_concat]
    simp only [List.mem_append, List.mem_singleton]
    grind

theorem get?_ofLines :
    (ofLines sections lines).get? label = some address ↔
      LastBinds sections lines label address := by
  simp [ofLines, get?_extend]

/-- The last line of a label is found in the later lines, or else in those before. -/
theorem lastBinds_append :
    LastBinds sections (lines ++ more) label address ↔
      LastBinds sections more label address ∨
        (∀ line ∈ more, ∀ other, ¬Binds sections line label other) ∧
          LastBinds sections lines label address := by
  rw [← get?_ofLines, ofLines, extend_append, get?_extend]
  exact or_congr_right (and_congr_right fun _ => get?_ofLines)

/-! ## Dumps that give the same table -/

theorem ofLines_eq_iff : ofLines sections lines = ofLines sections more ↔
    ∀ label address, LastBinds sections lines label address ↔
      LastBinds sections more label address := by
  simp only [← get?_ofLines]
  constructor
  · intro h label address
    rw [h]
  · intro h
    exact ext_get? fun label => Option.ext (h label)

/-- The line is a row in one of the sections. -/
def accepts (sections : List String) (line : String) : Bool := (acceptedRow? sections line).isSome

theorem accepted_filter_accepts (sections lines : List String) :
    accepted sections (lines.filter (accepts sections)) = accepted sections lines := by
  simp only [accepted_eq_filterMap, List.filterMap_filter]
  refine congrArg (List.filterMap · lines) (funext fun line => ?_)
  rw [accepts]
  cases acceptedRow? sections line <;> rfl

/-- What is no row in one of the sections does not count. -/
theorem ofLines_filter_accepts (sections lines : List String) :
    ofLines sections (lines.filter (accepts sections)) = ofLines sections lines := by
  rw [ofLines, extend, accepted_filter_accepts]
  rfl

/-- A dump that is read again changes nothing. -/
theorem ofLines_append_self (sections lines : List String) :
    ofLines sections (lines ++ lines) = ofLines sections lines := by
  rw [ofLines_eq_iff]
  intro label address
  rw [lastBinds_append]
  exact or_iff_left_of_imp And.right

/-- The lines of a dump in another order. Lines that give an address to the same label follow one
another as before. -/
structure Reordering (sections lines more : List String) where
  /-- Where a line has come from. -/
  origin : Fin more.length ≃ Fin lines.length
  get_origin : ∀ i, lines.get (origin i) = more.get i
  origin_lt : ∀ i j, i < j → ∀ label a b, Binds sections (more.get i) label a →
    Binds sections (more.get j) label b → origin i < origin j

namespace Reordering

/-- The lines back in their order. -/
def symm (r : Reordering sections lines more) : Reordering sections more lines where
  origin := r.origin.symm
  get_origin i := by rw [← r.get_origin, Equiv.apply_symm_apply]
  origin_lt i j hij label a b ha hb := by
    rw [← r.origin.apply_symm_apply i, r.get_origin] at ha
    rw [← r.origin.apply_symm_apply j, r.get_origin] at hb
    rcases Nat.lt_trichotomy (r.origin.symm i) (r.origin.symm j) with h | h | h
    · exact h
    · obtain rfl := r.origin.symm.injective (Fin.ext h)
      exact absurd hij (Nat.lt_irrefl _)
    · have hji := r.origin_lt _ _ h label b a hb ha
      rw [Equiv.apply_symm_apply, Equiv.apply_symm_apply] at hji
      exact absurd hij (Nat.lt_asymm hji)

/-- The last line of a label is still the last one of the label. -/
theorem lastBinds (r : Reordering sections lines more)
    (h : LastBinds sections lines label address) : LastBinds sections more label address := by
  obtain @⟨i, _, hline, hbinds, hlast⟩ := h
  obtain ⟨hi, rfl⟩ := List.getElem?_eq_some_iff.mp hline
  obtain ⟨k, hk⟩ := r.origin.surjective ⟨i, hi⟩
  have hfirst : Binds sections (more.get k) label address := by
    rw [← r.get_origin, hk]
    exact hbinds
  refine ⟨List.getElem?_eq_getElem k.isLt, hfirst, fun j hkj later hlater other hother => ?_⟩
  obtain ⟨hj, rfl⟩ := List.getElem?_eq_some_iff.mp hlater
  -- a later line of the label has come from a later line
  have hlt := r.origin_lt k ⟨j, hj⟩ hkj label address other hfirst hother
  rw [hk] at hlt
  refine hlast (r.origin ⟨j, hj⟩) hlt _ (List.getElem?_eq_getElem (Fin.isLt _)) other ?_
  show Binds sections (lines.get (r.origin ⟨j, hj⟩)) label other
  rwa [r.get_origin]

theorem ofLines_eq (r : Reordering sections lines more) :
    ofLines sections lines = ofLines sections more :=
  ofLines_eq_iff.mpr fun _ _ => ⟨r.lastBinds, r.symm.lastBinds⟩

end Reordering

/-- The dumps give the same table, and by it every program is placed alike and reported alike. -/
structure Interchangeable (sections lines more : List String) : Prop where
  ofLines_eq : ofLines sections lines = ofLines sections more
  place_eq : ∀ p : Program, p.place (ofLines sections lines) = p.place (ofLines sections more)
  report_eq : ∀ p : Program,
    Report.ofProgram (ofLines sections lines) p = Report.ofProgram (ofLines sections more) p

theorem interchangeable_iff :
    Interchangeable sections lines more ↔ ofLines sections lines = ofLines sections more :=
  ⟨Interchangeable.ofLines_eq, fun h => ⟨h, fun _ => h ▸ rfl, fun _ => h ▸ rfl⟩⟩

/-- **The last rows decide.** The address of a label is the one of the last row that carries it and
lies in one of the sections. So two dumps may stand for one another if for each label these rows
have the same address, or there is none in either: lines that are no rows in one of the sections may
come, go and change, a dump may be read twice, and lines may change places as long as those of one
label follow one another as before. -/
theorem last_rows_decide (sections lines more : List String) :
    (∀ label address, (ofLines sections lines).get? label = some address ↔
        LastBinds sections lines label address) ∧
      ((∀ label address, LastBinds sections lines label address ↔
        LastBinds sections more label address) → Interchangeable sections lines more) ∧
      (lines.filter (accepts sections) = more.filter (accepts sections) →
        Interchangeable sections lines more) ∧
      Interchangeable sections (lines ++ lines) lines ∧
      ∀ _ : Reordering sections lines more, Interchangeable sections lines more := by
  simp only [interchangeable_iff]
  refine ⟨fun _ _ => get?_ofLines, ofLines_eq_iff.mpr, ?_, ofLines_append_self sections lines,
    Reordering.ofLines_eq⟩
  intro h
  rw [← ofLines_filter_accepts sections lines, h, ofLines_filter_accepts]

/-- A label with two rows in `.text` and one in `.data`: its first row may have another address, a
header may take the place of the row in `.data`, and the row of another label may stand in
between. -/
theorem last_rows_decide_of_repeated_label :
    let first := "00001000 g     F .text\t00000010 dup"
    let last := "00002000 g     F .text\t00000010 dup"
    let main := "00004000 g     F .text\t00000010 main"
    let data := "00003000 g     O .data\t00000010 dup"
    let altered := "00009999 g     F .text\t00000010 dup"
    let lines := [first, last, main, data]
    (ofLines [".text"] lines).get? "dup" = some 0x2000 ∧
      (∀ label address, LastBinds [".text"] lines label address ↔
        LastBinds [".text"] [altered, last, main, data] label address) ∧
      Interchangeable [".text"] lines [altered, last, main, data] ∧
      lines.filter (accepts [".text"]) =
        ["SYMBOL TABLE:", first, last, main].filter (accepts [".text"]) ∧
      Interchangeable [".text"] lines ["SYMBOL TABLE:", first, last, main] ∧
      Interchangeable [".text"] lines [first, main, last, data] := by
  intro first last main data altered lines
  have hfirst : acceptedRow? [".text"] first = some ⟨0x1000, ".text", "dup"⟩ := by decide +kernel
  have haltered : acceptedRow? [".text"] altered = some ⟨0x9999, ".text", "dup"⟩ := by
    decide +kernel
  have hlast : acceptedRow? [".text"] last = some ⟨0x2000, ".text", "dup"⟩ := by decide +kernel
  have hmain : acceptedRow? [".text"] main = some ⟨0x4000, ".text", "main"⟩ := by decide +kernel
  have hdata : acceptedRow? [".text"] data = none := by decide +kernel
  have hbinds : ∀ label address, LastBinds [".text"] lines label address ↔
      LastBinds [".text"] [altered, last, main, data] label address := by
    intro label address
    show LastBinds _ ([] ++ [first] ++ [last] ++ [main] ++ [data]) _ _ ↔
      LastBinds _ ([] ++ [altered] ++ [last] ++ [main] ++ [data]) _ _
    simp only [lastBinds_concat, binds_iff, hfirst, haltered, hlast, hmain, hdata]
    grind
  have hfilter : lines.filter (accepts [".text"]) =
      ["SYMBOL TABLE:", first, last, main].filter (accepts [".text"]) := by decide +kernel
  have hswap : ∀ i j : Fin 4, i < j → Equiv.swap 1 2 i < Equiv.swap 1 2 j ∨ i = 1 ∧ j = 2 := by
    decide
  let reordering : Reordering [".text"] lines [first, main, last, data] :=
    { origin := Equiv.swap (1 : Fin 4) 2
      get_origin := by decide +kernel
      origin_lt := by
        intro i j hij label a b ha hb
        rcases hswap i j hij with h | ⟨rfl, rfl⟩
        · exact h
        · obtain ⟨r, hr, hlabel, -⟩ := binds_iff.mp ha
          obtain ⟨q, hq, rfl, -⟩ := binds_iff.mp hb
          obtain rfl := Option.some.inj (hmain.symm.trans hr)
          obtain rfl := Option.some.inj (hlast.symm.trans hq)
          exact absurd hlabel (by decide) }
  have hdup : LastBinds [".text"] lines "dup" 0x2000 := by
    show LastBinds _ ([] ++ [first] ++ [last] ++ [main] ++ [data]) _ _
    simp only [lastBinds_concat, binds_iff, hfirst, hlast, hmain, hdata]
    grind
  obtain ⟨hget, hsame, -⟩ := last_rows_decide [".text"] lines [altered, last, main, data]
  refine ⟨(hget _ _).mpr hdup, hbinds, hsame hbinds, hfilter,
    (last_rows_decide _ _ _).2.2.1 hfilter, (last_rows_decide _ _ _).2.2.2.2 reordering⟩

end CodeMap.SymbolTable
