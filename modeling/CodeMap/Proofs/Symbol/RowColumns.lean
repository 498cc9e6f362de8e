import CodeMap.Proofs.Text.Hex
import CodeMap.Proofs.Text.Pieces
import CodeMap.Symbol.Row
import Mathlib.Data.List.Forall2

/-! # The columns of a row

A line is a row if its text, without the line ends behind it, is made of the columns of a row
(`Columns.Spells`). There is at most one way to read a text so: the widths of the first two columns
are fixed, and from then on words and blanks take turns. So the search through all the ways of the
pattern has no choice, and the row depends on the address, the section and the label alone
(`SymbolRow.row_iff_columns`).
-/

namespace CodeMap.SymbolRow

/-! ## Words and blanks -/

section

variable {xs ys : List Char}

/-- A line end is a blank, so none is part of a word. -/
theorem isBlank_of_isLineEnd {x : Char} (h : isLineEnd x) : Text.isBlank x := by
  simp only [isLineEnd, Bool.or_eq_true, beq_iff_eq] at h
  rcases h with rfl | rfl <;> rfl

/-- A word ends where a blank follows. -/
theorem cut_word (hx : ∀ x ∈ xs, ¬Text.isBlank x) (hy : ∀ y ∈ ys.head?, Text.isBlank y) :
    (xs ++ ys).takeWhile (!Text.isBlank ·) = xs ∧
      (xs ++ ys).dropWhile (!Text.isBlank ·) = ys := by
  have hword : ∀ x ∈ xs, (!Text.isBlank x) = true := fun x h => by simpa using hx x h
  have hblank : ∀ y ∈ ys.head?, ¬(!Text.isBlank y) = true := fun y h => by simpa using hy y h
  exact ⟨Text.takeWhile_append_eq hword hblank, Text.dropWhile_append_eq hword hblank⟩

/-- Blanks end where a word follows. -/
theorem cut_blanks (hx : ∀ x ∈ xs, Text.isBlank x) (hy : ∀ y ∈ ys.head?, ¬Text.isBlank y) :
    (xs ++ ys).takeWhile Text.isBlank = xs ∧ (xs ++ ys).dropWhile Text.isBlank = ys :=
  ⟨Text.takeWhile_append_eq hx hy, Text.dropWhile_append_eq hx hy⟩

/-- Behind a word there are blanks, if there is anything. -/
theorem blanks_behind_word (h : xs.dropWhile (!Text.isBlank ·) ≠ []) :
    (xs.dropWhile (!Text.isBlank ·)).takeWhile Text.isBlank ≠ [] :=
  Text.takeWhile_ne_nil h fun x hx => by simpa using Text.not_of_mem_head?_dropWhile hx

/-- The line ends behind a word are not part of it. -/
theorem dropTrailing_word {ends : List Char} (hne : ys ≠ []) (hword : ∀ y ∈ ys, ¬Text.isBlank y)
    (hends : ∀ x ∈ ends, isLineEnd x) :
    Text.dropTrailing isLineEnd (xs ++ ys ++ ends) = xs ++ ys := by
  refine Text.dropTrailing_append hends fun x hx hend => ?_
  rw [List.getLast?_append_of_ne_nil _ hne] at hx
  exact hword x (List.mem_of_mem_getLast? hx) (isBlank_of_isLineEnd hend)

theorem forall_head?_append {P : Char → Prop} (hne : xs ≠ []) (h : ∀ x ∈ xs, P x)
    (ys : List Char) : ∀ x ∈ (xs ++ ys).head?, P x := by
  cases xs with
  | nil => exact absurd rfl hne
  | cons x rest =>
    intro y hy
    obtain rfl := Option.some.inj hy
    exact h x (.head rest)

end

/-! ## One way to read a row -/

namespace Columns

/-- The columns are those of a row, and the text is made of them. -/
structure Spells (c : Columns) (text : List Char) : Prop where
  toLine_eq : c.toLine = text
  address : c.address.length = 8 ∧ ∀ x ∈ c.address, Text.isHexDigit x
  flags : c.flags.length = 9 ∧ ∀ x ∈ c.flags, x ≠ '\n'
  sectionName : c.sectionName ≠ [] ∧ ∀ x ∈ c.sectionName, ¬Text.isBlank x
  gap : c.gap ≠ [] ∧ ∀ x ∈ c.gap, Text.isBlank x
  value : c.value ≠ [] ∧ ∀ x ∈ c.value, Text.isHexDigit x
  gapBefore : c.gapBefore ≠ [] ∧ ∀ x ∈ c.gapBefore, Text.isBlank x
  label : c.label ≠ [] ∧ ∀ x ∈ c.label, ¬Text.isBlank x

variable {c d : Columns} {text : List Char}

/-- Behind the two columns of fixed width there are words and blanks. -/
theorem Spells.drop_eq (h : c.Spells text) :
    text.drop 17 = c.sectionName ++ (c.gap ++ (c.value ++ (c.gapBefore ++ c.label))) := by
  have hlength : (c.address ++ c.flags).length = 17 := by
    rw [List.length_append, h.address.1, h.flags.1]
  have hline : text = (c.address ++ c.flags) ++
      (c.sectionName ++ (c.gap ++ (c.value ++ (c.gapBefore ++ c.label)))) := by
    simp only [← h.toLine_eq, toLine, List.append_assoc]
  rw [hline]
  exact List.drop_left' hlength

/-- Cutting finds the columns that a text is made of: none of them can take more or less. -/
theorem Spells.ofLine_eq (h : c.Spells text) : ofLine text = c := by
  have hdrop17 := h.drop_eq
  obtain ⟨rfl, ⟨haddress, -⟩, ⟨hflags, -⟩, hsection, hgap, hvalue, hgapBefore, hlabel⟩ := h
  have htake8 : c.toLine.take 8 = c.address := by
    simp only [toLine, List.append_assoc]
    exact List.take_left' haddress
  have hdrop8 : c.toLine.drop 8 =
      c.flags ++ (c.sectionName ++ (c.gap ++ (c.value ++ (c.gapBefore ++ c.label)))) := by
    simp only [toLine, List.append_assoc]
    exact List.drop_left' haddress
  have hdigits : ∀ x ∈ c.value, ¬Text.isBlank x :=
    fun x hx => Text.not_isBlank_of_isHexDigit (hvalue.2 x hx)
  have hlabelHead : ∀ x ∈ c.label.head?, ¬Text.isBlank x :=
    fun x hx => hlabel.2 x (List.mem_of_mem_head? hx)
  have hcutSection := cut_word hsection.2
    (forall_head?_append hgap.1 hgap.2 (c.value ++ (c.gapBefore ++ c.label)))
  have hcutGap := cut_blanks hgap.2
    (forall_head?_append hvalue.1 hdigits (c.gapBefore ++ c.label))
  have hcutValue := cut_word hdigits
    (forall_head?_append hgapBefore.1 hgapBefore.2 c.label)
  have hcutGapBefore := cut_blanks hgapBefore.2 hlabelHead
  simp only [ofLine, htake8, hdrop8, hdrop17, List.take_left' hflags, hcutSection, hcutGap,
    hcutValue, hcutGapBefore]

/-- A text is made of the columns of a row in one way only. -/
theorem Spells.unique (hc : c.Spells text) (hd : d.Spells text) : c = d :=
  hc.ofLine_eq.symm.trans hd.ofLine_eq

/-- Columns that are well formed once they are cut are those of a row. What is not checked holds of
every cut: words hold no blanks, and there are blanks between two words. -/
theorem wellFormed_ofLine_iff : (ofLine text).wellFormed ↔ (ofLine text).Spells text := by
  simp only [wellFormed, Bool.and_eq_true, beq_iff_eq, bne_iff_ne, ne_eq, List.all_eq_true,
    Bool.not_eq_true', and_assoc]
  constructor
  · rintro ⟨haddress, hdigits, hflags, hline, hsection, hvalue, hhex, hlabel, hword⟩
    have hbehindValue : (ofLine text).gapBefore ≠ [] := by
      refine blanks_behind_word fun hnil => hlabel ?_
      show List.dropWhile _ (List.dropWhile _ _) = []
      rw [hnil]
      rfl
    have hbehindSection : (ofLine text).gap ≠ [] := by
      refine blanks_behind_word fun hnil => hvalue ?_
      show List.takeWhile _ (List.dropWhile _ (List.dropWhile _ _)) = []
      rw [hnil]
      rfl
    refine ⟨toLine_ofLine text, ⟨haddress, hdigits⟩, ⟨hflags, hline⟩, ⟨hsection, ?_⟩,
      ⟨hbehindSection, fun x => List.mem_takeWhile_imp⟩, ⟨hvalue, hhex⟩,
      ⟨hbehindValue, fun x => List.mem_takeWhile_imp⟩, hlabel, fun x hx => by simp [hword x hx]⟩
    exact fun x hx => by simpa using List.mem_takeWhile_imp hx
  · intro h
    exact ⟨h.address.1, h.address.2, h.flags.1, h.flags.2, h.sectionName.1, h.value.1, h.value.2,
      h.label.1, fun x hx => by simpa using h.label.2 x hx⟩

/-- The row with these columns. -/
def row (c : Columns) : SymbolRow :=
  ⟨UInt64.ofNat (Text.hexNumber c.address), String.ofList c.sectionName, String.ofList c.label⟩

/-- The columns one after another. -/
def pieces (c : Columns) : List (List Char) :=
  [c.address, c.flags, c.sectionName, c.gap, c.value, c.gapBefore, c.label]

/-- Eight digits spell a number below `2 ^ 32`, so the address is that number. -/
theorem Spells.toNat_address (h : c.Spells text) :
    c.row.address.toNat = Text.hexNumber c.address := by
  have hlt := Text.hexNumber_lt c.address
  rw [h.address.1] at hlt
  exact UInt64.toNat_ofNat_of_lt' (Nat.lt_trans hlt (by decide))

/-- A row does not end with a line end, since the label has no blanks. -/
theorem Spells.dropTrailing_append (h : c.Spells text) {ends : List Char}
    (hends : ∀ x ∈ ends, isLineEnd x) :
    Text.dropTrailing isLineEnd (text ++ ends) = text := by
  rw [← h.toLine_eq, toLine]
  exact dropTrailing_word h.label.1 h.label.2 hends

end Columns

open Columns

variable {line text : List Char} {r : SymbolRow}

theorem parse?_eq_some :
    parse? line = some r ↔
      ∃ c : Columns, c.Spells (Text.dropTrailing isLineEnd line) ∧ c.row = r := by
  have hparse : parse? line =
      if (ofLine (Text.dropTrailing isLineEnd line)).wellFormed
        then some (ofLine (Text.dropTrailing isLineEnd line)).row else none := rfl
  rw [hparse]
  constructor
  · intro h
    split at h
    · next hwell => exact ⟨_, wellFormed_ofLine_iff.mp hwell, Option.some.inj h⟩
    · cases h
  · rintro ⟨c, hc, rfl⟩
    have hwell := wellFormed_ofLine_iff.mpr (hc.ofLine_eq.symm ▸ hc)
    rw [if_pos hwell, hc.ofLine_eq]

/-- Line ends behind a line do not matter. -/
theorem parse?_append (line : List Char) {ends : List Char} (hends : ∀ x ∈ ends, isLineEnd x) :
    parse? (line ++ ends) = parse? line := by
  rw [parse?, parse?, Text.dropTrailing_append_of_pos line hends]

/-! ## The search -/

namespace ColumnKind

/-- The piece is a column of the kind. -/
structure Fits (k : ColumnKind) (piece : List Char) : Prop where
  holds : ∀ x ∈ piece, k.holds x
  least_le : k.least ≤ piece.length
  le_most : ∀ n ∈ k.most, piece.length ≤ n

theorem fits_exactly {width : Nat} {holds : Char → Bool} {piece : List Char} :
    (exactly width holds).Fits piece ↔ piece.length = width ∧ ∀ x ∈ piece, holds x := by
  constructor
  · rintro ⟨hholds, hleast, hmost⟩
    exact ⟨Nat.le_antisymm (hmost width rfl) hleast, hholds⟩
  · rintro ⟨hlength, hholds⟩
    refine ⟨hholds, hlength.ge, fun n hn => ?_⟩
    obtain rfl := Option.some.inj hn
    exact hlength.le

theorem fits_run {holds : Char → Bool} {piece : List Char} :
    (run holds).Fits piece ↔ piece ≠ [] ∧ ∀ x ∈ piece, holds x := by
  constructor
  · rintro ⟨hholds, hleast, -⟩
    exact ⟨List.ne_nil_of_length_pos hleast, hholds⟩
  · rintro ⟨hne, hholds⟩
    exact ⟨hholds, List.length_pos_of_ne_nil hne, nofun⟩

theorem le_longest {k : ColumnKind} {n : Nat} :
    n ≤ k.longest text ↔
      n ≤ text.length ∧ (∀ x ∈ text.take n, k.holds x) ∧ ∀ m ∈ k.most, n ≤ m := by
  rw [longest]
  cases k.most with
  | none => simp [Text.le_length_takeWhile]
  | some m =>
    rw [Option.map_some, Option.getD_some, Nat.le_min, Text.le_length_takeWhile, and_assoc]
    simp

theorem mem_widths {k : ColumnKind} {n : Nat} :
    n ∈ k.widths text ↔ n ≤ text.length ∧ k.Fits (text.take n) := by
  have hrange : n ∈ k.widths text ↔ k.least ≤ n ∧ n ≤ k.longest text := by
    rw [widths, List.mem_reverse, List.mem_range'_1]
    omega
  rw [hrange, le_longest]
  constructor
  · rintro ⟨hleast, hlength, hholds, hmost⟩
    have htake : (text.take n).length = n := by rw [List.length_take, Nat.min_eq_left hlength]
    exact ⟨hlength, hholds, htake.symm ▸ hleast, htake.symm ▸ hmost⟩
  · rintro ⟨hlength, hholds, hleast, hmost⟩
    have htake : (text.take n).length = n := by rw [List.length_take, Nat.min_eq_left hlength]
    exact ⟨htake ▸ hleast, hlength, hholds, htake ▸ hmost⟩

/-- The search goes through all the ways to cut a text, and no others. -/
theorem mem_cuts {kinds : List ColumnKind} {pieces : List (List Char)} :
    pieces ∈ cuts kinds text ↔ List.Forall₂ Fits kinds pieces ∧ pieces.flatten = text := by
  induction kinds generalizing text pieces with
  | nil => cases text <;> simp +contextual [cuts]
  | cons k rest ih =>
    simp only [cuts, List.mem_flatMap, List.mem_map, mem_widths, ih]
    constructor
    · rintro ⟨n, ⟨-, hfits⟩, pieces, ⟨hrest, hflatten⟩, rfl⟩
      exact ⟨.cons hfits hrest, by rw [List.flatten_cons, hflatten, List.take_append_drop]⟩
    · rintro ⟨_ | ⟨hfits, hrest⟩, rfl⟩
      rename_i piece pieces
      rw [List.flatten_cons]
      refine ⟨piece.length, ⟨?_, ?_⟩, pieces, ⟨hrest, ?_⟩, ?_⟩
      · rw [List.length_append]
        exact Nat.le_add_right _ _
      · rwa [List.take_left]
      · rw [List.drop_left]
      · rw [List.take_left]

end ColumnKind

/-- The ways of the pattern are the ways to read a row. -/
theorem mem_cuts_pattern {pieces : List (List Char)} :
    pieces ∈ ColumnKind.cuts pattern text ↔ ∃ c : Columns, c.Spells text ∧ c.pieces = pieces := by
  rw [ColumnKind.mem_cuts]
  constructor
  · rintro ⟨hfits, rfl⟩
    simp only [pattern, List.forall₂_cons_left_iff, List.forall₂_nil_left_iff,
      ColumnKind.fits_exactly, ColumnKind.fits_run] at hfits
    obtain ⟨address, _, haddress, ⟨flags, _, hflags, ⟨sectionName, _, hsection, ⟨gap, _, hgap,
      ⟨value, _, hvalue, ⟨gapBefore, _, hgapBefore, ⟨label, _, hlabel, rfl, rfl⟩, rfl⟩, rfl⟩, rfl⟩,
      rfl⟩, rfl⟩, rfl⟩ := hfits
    refine ⟨⟨address, flags, sectionName, gap, value, gapBefore, label⟩,
      ⟨?_, haddress, ?_, ?_, hgap, hvalue, hgapBefore, ?_⟩, rfl⟩
    · simp [toLine]
    · simpa using hflags
    · simpa using hsection
    · simpa using hlabel
  · rintro ⟨c, ⟨rfl, haddress, hflags, hsection, hgap, hvalue, hgapBefore, hlabel⟩, rfl⟩
    constructor
    · simp only [pattern, pieces, List.forall₂_cons, ColumnKind.fits_exactly, ColumnKind.fits_run]
      exact ⟨haddress, by simpa using hflags, by simpa using hsection, hgap, hvalue, hgapBefore,
        by simpa using hlabel, .nil⟩
    · simp [pieces, toLine]

/-- The search finds what is cut, whichever way it tries first. -/
theorem ofPieces?_of_mem_cuts {pieces : List (List Char)}
    (h : pieces ∈ ColumnKind.cuts pattern (Text.dropTrailing isLineEnd line)) :
    ofPieces? pieces = parse? line := by
  obtain ⟨c, hc, rfl⟩ := mem_cuts_pattern.mp h
  exact (parse?_eq_some.mpr ⟨c, hc, rfl⟩).symm

theorem search?_eq (line : List Char) : search? line = parse? line := by
  rw [search?]
  cases hcuts : ColumnKind.cuts pattern (Text.dropTrailing isLineEnd line) with
  | nil =>
    cases hparse : parse? line with
    | none => rfl
    | some r =>
      obtain ⟨c, hc, -⟩ := parse?_eq_some.mp hparse
      have hmem := mem_cuts_pattern.mpr ⟨c, hc, rfl⟩
      rw [hcuts] at hmem
      cases hmem
  | cons pieces rest => exact ofPieces?_of_mem_cuts (hcuts ▸ .head rest)

/-! ## What a row is -/

/-- The row has the address, the section and the label of the columns. -/
structure Columns.Denotes (c : Columns) (r : SymbolRow) : Prop where
  address : r.address.toNat = Text.hexNumber c.address
  sectionName : r.sectionName = String.ofList c.sectionName
  label : r.label = String.ofList c.label

theorem Columns.Spells.denotes_iff {c : Columns} (h : c.Spells text) :
    c.Denotes r ↔ c.row = r := by
  constructor
  · rintro ⟨haddress, hsection, hlabel⟩
    obtain ⟨address, sectionName, label⟩ := r
    obtain rfl := hsection
    obtain rfl := hlabel
    rw [row, SymbolRow.mk.injEq, ← UInt64.toNat_inj]
    exact ⟨h.toNat_address.trans haddress.symm, rfl, rfl⟩
  · rintro rfl
    exact ⟨h.toNat_address, rfl, rfl⟩

/-- **What a row is.** A line is a row exactly if its text, without the line ends behind it, is made
of the columns of a row; the row then has the address, the section and the label of the columns.
There are no two ways to read a text so, and a search through all the ways of the pattern finds the
same row whichever it tries first. Flags, value, blanks and line ends do not matter. -/
theorem row_iff_columns (line : String) :
    let text := Text.dropTrailing isLineEnd line.toList
    (∀ r, ofLine? line = some r ↔ ∃ c : Columns, c.Spells text ∧ c.Denotes r) ∧
      (∀ c d : Columns, c.Spells text → d.Spells text → c = d) ∧
      (search? line.toList = ofLine? line ∧
        ∀ pieces ∈ ColumnKind.cuts pattern text, ofPieces? pieces = ofLine? line) ∧
      ∀ (c d : Columns) (ends : List Char), c.Spells text → d.Spells d.toLine →
        d.address = c.address → d.sectionName = c.sectionName → d.label = c.label →
        (∀ x ∈ ends, isLineEnd x) → ofLine? (String.ofList (d.toLine ++ ends)) = ofLine? line := by
  intro text
  refine ⟨fun r => ?_, fun c d => Spells.unique,
    ⟨search?_eq line.toList, fun pieces => ofPieces?_of_mem_cuts⟩, ?_⟩
  · rw [ofLine?, parse?_eq_some]
    exact exists_congr fun c => and_congr_right fun hc => hc.denotes_iff.symm
  · intro c d ends hc hd haddress hsection hlabel hends
    have hrow : d.row = c.row := by rw [row, row, haddress, hsection, hlabel]
    have hline : ofLine? line = some c.row := parse?_eq_some.mpr ⟨c, hc, rfl⟩
    rw [hline, ← hrow, ofLine?, String.toList_ofList, parse?_eq_some]
    exact ⟨d, (hd.dropTrailing_append hends).symm ▸ hd, rfl⟩

/-- Digits of either case, a carriage return in front of the line feed, and the same row with flags
that look like digits and a line feed between section and value. -/
theorem row_iff_columns_of_mixed_case :
    let line := "0000aBcD g     O .data	 0C counter\r\n"
    let text := Text.dropTrailing isLineEnd line.toList
    let c : Columns := ⟨"0000aBcD".toList, " g     O ".toList, ".data".toList, "	 ".toList,
      "0C".toList, " ".toList, "counter".toList⟩
    let d : Columns := { c with flags := "11112222f".toList, gap := ['\n'], value := ['e'] }
    c.Spells text ∧ d.Spells d.toLine ∧ ofLine? line = some ⟨0xabcd, ".data", "counter"⟩ ∧
      (∀ e : Columns, e.Spells text → e = c) ∧ c.pieces ∈ ColumnKind.cuts pattern text ∧
      ofPieces? c.pieces = ofLine? line ∧
      ofLine? (String.ofList (d.toLine ++ ['\r', '\r'])) = ofLine? line := by
  intro line text c d
  have hcut : ofLine text = c ∧ ofLine d.toLine = d := by decide +kernel
  have hspells {e : Columns} {line : List Char} (he : ofLine line = e) (hwell : e.wellFormed) :
      e.Spells line := he ▸ wellFormed_ofLine_iff.mp (he.symm ▸ hwell)
  have hc : c.Spells text := hspells hcut.1 (by decide +kernel)
  have hd : d.Spells d.toLine := hspells hcut.2 (by decide +kernel)
  have hmem : c.pieces ∈ ColumnKind.cuts pattern text := mem_cuts_pattern.mpr ⟨c, hc, rfl⟩
  obtain ⟨hrow, hunique, ⟨-, hsearch⟩, hsame⟩ := row_iff_columns line
  refine ⟨hc, hd, (hrow _).mpr ⟨c, hc, ?_⟩, fun e he => hunique e c he hc, hmem, hsearch _ hmem,
    hsame c d _ hc hd rfl rfl rfl (by simp [isLineEnd])⟩
  constructor <;> decide +kernel

end CodeMap.SymbolRow
