import CodeMap.Proofs.Symbol.RowColumns
import CodeMap.Proofs.Text.Pieces

/-! # Rows with long addresses

The dump of a binary with addresses of 64 bits has rows of its own: sixteen digits, seven flags
between two spaces, and then the section, the value and the label as words. The first eight digits
and the nine characters behind them could be the first two columns of a row. But a row has three
words behind these columns and begins with one of them, whereas a long row has its flags there, and
the three words only behind them (`SymbolRow.long_row_is_no_row`).
-/

namespace CodeMap.SymbolRow

namespace Columns

variable {c : Columns} {text : List Char}

/-- The columns are those of a row with a long address, and the text is made of them. The value need
not be a number. -/
structure SpellsLong (c : Columns) (text : List Char) : Prop where
  line_eq : c.address ++ ' ' :: c.flags ++ ' ' :: c.sectionName ++ c.gap ++ c.value ++ c.gapBefore ++
    c.label = text
  address : c.address.length = 16 ∧ ∀ x ∈ c.address, Text.isHexDigit x
  flags : c.flags.length = 7
  sectionName : c.sectionName ≠ [] ∧ ∀ x ∈ c.sectionName, ¬Text.isBlank x
  gap : c.gap ≠ [] ∧ ∀ x ∈ c.gap, Text.isBlank x
  value : c.value ≠ [] ∧ ∀ x ∈ c.value, ¬Text.isBlank x
  gapBefore : c.gapBefore ≠ [] ∧ ∀ x ∈ c.gapBefore, Text.isBlank x
  label : c.label ≠ [] ∧ ∀ x ∈ c.label, ¬Text.isBlank x

/-- The last five columns are three words. -/
theorem words_lastColumns (hsection : c.sectionName ≠ [] ∧ ∀ x ∈ c.sectionName, ¬Text.isBlank x)
    (hgap : c.gap ≠ [] ∧ ∀ x ∈ c.gap, Text.isBlank x)
    (hvalue : c.value ≠ [] ∧ ∀ x ∈ c.value, ¬Text.isBlank x)
    (hgapBefore : c.gapBefore ≠ [] ∧ ∀ x ∈ c.gapBefore, Text.isBlank x)
    (hlabel : c.label ≠ [] ∧ ∀ x ∈ c.label, ¬Text.isBlank x) :
    Text.words (c.sectionName ++ (c.gap ++ (c.value ++ (c.gapBefore ++ c.label)))) =
      [c.sectionName, c.value, c.label] := by
  rw [Text.words_append_blanks_append _ _ hgap, Text.words_append_blanks_append _ _ hgapBefore,
    Text.words_word hsection, Text.words_word hvalue, Text.words_word hlabel]
  rfl

/-- Behind the columns of fixed width a row has three words. -/
theorem Spells.words_drop (h : c.Spells text) :
    Text.words (text.drop 17) = [c.sectionName, c.value, c.label] := by
  rw [h.drop_eq]
  exact words_lastColumns h.sectionName h.gap
    ⟨h.value.1, fun x hx => Text.not_isBlank_of_isHexDigit (h.value.2 x hx)⟩ h.gapBefore h.label

/-- A long row has its flags at this place, and then three words. -/
theorem SpellsLong.drop_eq (h : c.SpellsLong text) : text.drop 17 = c.flags ++
    ' ' :: (c.sectionName ++ (c.gap ++ (c.value ++ (c.gapBefore ++ c.label)))) := by
  have hlength : (c.address ++ [' ']).length = 17 := by
    rw [List.length_append, h.address.1, List.length_singleton]
  have hline : text = (c.address ++ [' ']) ++ (c.flags ++
      ' ' :: (c.sectionName ++ (c.gap ++ (c.value ++ (c.gapBefore ++ c.label))))) := by
    simp [← h.line_eq]
  rw [hline]
  exact List.drop_left' hlength

theorem SpellsLong.words_drop (h : c.SpellsLong text) :
    Text.words (text.drop 17) = Text.words c.flags ++ [c.sectionName, c.value, c.label] := by
  rw [h.drop_eq, Text.words_append_cons _ _ (by rfl),
    words_lastColumns h.sectionName h.gap h.value h.gapBefore h.label]

/-- No text is made both of the columns of a row and of those of a long row. -/
theorem SpellsLong.not_spells (h : c.SpellsLong text) (d : Columns) : ¬d.Spells text := by
  intro hd
  -- There is no word left for the flags, so they are blanks.
  have hflags : Text.words c.flags = [] := by
    have hlength := congrArg List.length (h.words_drop.symm.trans hd.words_drop)
    rw [List.length_append] at hlength
    exact List.length_eq_zero_iff.mp (Nat.add_right_cancel hlength)
  -- But a row begins with a word where they begin.
  obtain ⟨x, rest, hx⟩ : ∃ x rest, c.flags = x :: rest :=
    List.exists_cons_of_length_pos (h.flags ▸ Nat.succ_pos 6)
  have hword : ¬Text.isBlank x := by
    have hhead := forall_head?_append hd.sectionName.1 hd.sectionName.2
      (d.gap ++ (d.value ++ (d.gapBefore ++ d.label)))
    rw [← hd.drop_eq, h.drop_eq, hx] at hhead
    exact hhead x rfl
  rw [hx] at hflags
  exact Text.words_cons_ne_nil rest hword hflags

end Columns

variable {c : Columns} {text ends : List Char}

/-- **A row with a long address is no row.** Its flags may be anything, also digits or spaces; its
section and its value may look like numbers; and any line ends may stand behind it. -/
theorem long_row_is_no_row (h : c.SpellsLong text) (hends : ∀ x ∈ ends, isLineEnd x) :
    ofLine? (String.ofList (text ++ ends)) = none := by
  have hdrop : Text.dropTrailing isLineEnd (text ++ ends) = text := by
    rw [← h.line_eq]
    exact dropTrailing_word h.label.1 h.label.2 hends
  rw [ofLine?_ofList, Option.eq_none_iff_forall_ne_some]
  intro r hr
  obtain ⟨d, hd, -⟩ := parse?_eq_some.mp hr
  rw [hdrop] at hd
  exact h.not_spells d hd

/-- The flags of a section symbol could be a section name and a value, and what is behind them is all
made of digits. -/
theorem long_row_is_no_row_of_digits :
    let text := "0000000000001040 l    d  f00d\t10 beef".toList
    let c : Columns := ⟨"0000000000001040".toList, "l    d ".toList, "f00d".toList, ['\t'],
      "10".toList, [' '], "beef".toList⟩
    c.SpellsLong text ∧ (∀ x ∈ ['\r', '\n'], isLineEnd x) ∧
      ofLine? "0000000000001040 l    d  f00d\t10 beef\r\n" = none := by
  intro text c
  have word {cs : List Char} (h : cs ≠ [] ∧ cs.all (!Text.isBlank ·)) :
      cs ≠ [] ∧ ∀ x ∈ cs, ¬Text.isBlank x :=
    ⟨h.1, fun x hx => by simpa using List.all_eq_true.mp h.2 x hx⟩
  have hlong : c.SpellsLong text :=
    { line_eq := by decide +kernel
      address := ⟨by decide +kernel, List.all_eq_true.mp (by decide +kernel)⟩
      flags := by decide +kernel
      sectionName := word (by decide +kernel)
      gap := ⟨nofun, List.all_eq_true.mp (by decide)⟩
      value := word (by decide +kernel)
      gapBefore := ⟨nofun, List.all_eq_true.mp (by decide)⟩
      label := word (by decide +kernel) }
  have hends : ∀ x ∈ ['\r', '\n'], isLineEnd x := List.all_eq_true.mp (by decide)
  have hline : String.ofList (text ++ ['\r', '\n']) =
      "0000000000001040 l    d  f00d\t10 beef\r\n" := by decide +kernel
  exact ⟨hlong, hends, hline ▸ long_row_is_no_row hlong hends⟩

end CodeMap.SymbolRow
