import CodeMap.Proofs.Dump.Source
import CodeMap.Proofs.Symbol.LastRows
import CodeMap.Proofs.Text.Damage
import Mathlib.Data.List.Forall2

/-! # Damaged dumps

A dumper may print bytes that are no UTF-8, since the names in a binary may hold any. They are mended
line by line: what stands in one line has no part in any other. So a damaged line may be replaced by
another one, and of the table nothing is lost but what the damaged line itself gave an address to
(`DumpSource.damage_stays_in_its_line`).
-/

namespace CodeMap

namespace Text

/-- The lines of a sequence of bytes. -/
def byteLines (bytes : Bytes) : List Bytes := cutLines 0x0A 0x0D bytes

/-- The text of a line, mended where it is damaged. -/
def mended (line : Bytes) : String := String.ofList (decodeLossy line)

theorem lines_decodeLossy (bytes : Bytes) : lines (decodeLossy bytes) = (byteLines bytes).map mended := by
  rw [lines, cutLines_decodeLossy, List.map_map]
  rfl

theorem mended_of_decode? {line : Bytes} {text : List Char} (h : decode? line = some text) :
    mended line = String.ofList text := by
  rw [mended, decodeLossy_of_decode? h]

/-- The other bytes have as many lines, and wherever a line is not damaged the same one. -/
def ReplacesDamage (bytes other : Bytes) : Prop :=
  List.Forall₂ (fun line replacement => (decode? line).isSome → replacement = line)
    (byteLines bytes) (byteLines other)

end Text

/-! ## One label -/

namespace SymbolTable

variable {sections lines others : List String} {line label : String} {t u : SymbolTable}

/-- Neither of the two lines gives the label an address. -/
def Spare (sections : List String) (label line other : String) : Prop :=
  ∀ address, ¬Binds sections line label address ∧ ¬Binds sections other label address

/-- The lines are the same, but for some that spare the label. -/
def AlikeFor (sections : List String) (label : String) (lines others : List String) : Prop :=
  List.Forall₂ (fun line other => line = other ∨ Spare sections label line other) lines others

theorem AlikeFor.get?_extend (h : AlikeFor sections label lines others)
    (ht : t.get? label = u.get? label) :
    (t.extend sections lines).get? label = (u.extend sections others).get? label := by
  induction h generalizing t u with
  | nil => exact ht
  | @cons line other lines others hline _ ih =>
    rw [← List.singleton_append (l := lines), ← List.singleton_append (l := others), extend_append,
      extend_append]
    apply ih
    apply Option.ext
    intro address
    rw [get?_extend_singleton, get?_extend_singleton, ht]
    rcases hline with rfl | hspare
    · rfl
    · have hline := fun address => (hspare address).1
      have hother := fun address => (hspare address).2
      simp [hline, hother]

/-- A line that gives the label an address makes up for all lines before it. -/
theorem AlikeFor.get?_extend_of_binds {i : Nat} {address : UInt64}
    (h : AlikeFor sections label (lines.drop (i + 1)) (others.drop (i + 1)))
    (hline : lines[i]? = some line) (hother : others[i]? = some line)
    (hbinds : Binds sections line label address) :
    (t.extend sections lines).get? label = (u.extend sections others).get? label := by
  have hdecides (t : SymbolTable) {lines : List String} (hline : lines[i]? = some line) :
      (t.extend sections (lines.take (i + 1))).get? label = some address := by
    rw [List.take_add_one, hline, extend_append]
    exact get?_extend_singleton.mpr (.inl hbinds)
  rw [← List.take_append_drop (i + 1) lines, ← List.take_append_drop (i + 1) others, extend_append,
    extend_append]
  exact h.get?_extend ((hdecides t hline).trans (hdecides u hother).symm)

end SymbolTable

/-! ## Lines in the place of damaged ones -/

namespace Text.ReplacesDamage

variable {bytes other : Bytes} {i : Nat} {line : Bytes}

/-- A line that is not damaged is still there. -/
theorem getElem?_of_decode? (h : ReplacesDamage bytes other) (hline : (byteLines bytes)[i]? = some line)
    (hdecode : (decode? line).isSome) : (byteLines other)[i]? = some line := by
  obtain ⟨hlength, hsame⟩ := List.forall₂_iff_get.mp h
  obtain ⟨hi, rfl⟩ := List.getElem?_eq_some_iff.mp hline
  exact List.getElem?_eq_some_iff.mpr ⟨hlength ▸ hi, hsame i hi (hlength ▸ hi) hdecode⟩

/-- From any line on, the lines are alike for a label that the damaged ones among them spare. -/
theorem alikeFor_drop (h : ReplacesDamage bytes other) {sections : List String} {label : String}
    (k : Nat) (hspare : ∀ p ∈ ((byteLines bytes).drop k).zip ((byteLines other).drop k),
      decode? p.1 = none → SymbolTable.Spare sections label (mended p.1) (mended p.2)) :
    SymbolTable.AlikeFor sections label (((byteLines bytes).map mended).drop k)
      (((byteLines other).map mended).drop k) := by
  obtain ⟨hlength, hsame⟩ := List.forall₂_iff_zip.mp (List.forall₂_drop k h)
  rw [SymbolTable.AlikeFor, ← List.map_drop, ← List.map_drop, List.forall₂_map_left_iff,
    List.forall₂_map_right_iff, List.forall₂_iff_zip]
  refine ⟨hlength, fun {line replacement} hmem => ?_⟩
  cases hdecode : decode? line with
  | none => exact .inr (hspare (line, replacement) hmem hdecode)
  | some text =>
    rw [hsame hmem (Option.isSome_of_eq_some hdecode)]
    exact .inl rfl

end Text.ReplacesDamage

/-- **Damage stays in its line.** What a dumper prints is cut into lines first, byte by byte, and then
every line is mended on its own: one that is UTF-8 is the text that it encodes. So if the damaged
lines are replaced by others, all other lines stay as they are and where they are. A label keeps its
address unless a damaged line gives it one, or the line in its place does; and if some line that is
not damaged gives it an address, then unless one of those behind it does. -/
theorem DumpSource.damage_stays_in_its_line {command : String} (hcallable : callable command)
    (limit : TimeLimit) (binary : String) (output : Text.Bytes) :
    let live := fun printed => ((dumper command limit (.ended (some 0) printed)).read binary).result
    let pieces := Text.byteLines output
    let lines := pieces.map Text.mended
    live output = .ok lines ∧
      ∀ other, Text.ReplacesDamage output other →
        let replaced := Text.byteLines other
        let others := replaced.map Text.mended
        live other = .ok others ∧ others.length = lines.length ∧
          (∀ (i : Nat) piece text, pieces[i]? = some piece → Text.decode? piece = some text →
            lines[i]? = some (String.ofList text) ∧ others[i]? = some (String.ofList text)) ∧
          ∀ (t : SymbolTable) sections label,
            ((∀ p ∈ pieces.zip replaced, Text.decode? p.1 = none →
                SymbolTable.Spare sections label (Text.mended p.1) (Text.mended p.2)) →
              (t.extend sections lines).get? label = (t.extend sections others).get? label) ∧
            ∀ (i : Nat) piece text address, pieces[i]? = some piece →
              Text.decode? piece = some text →
              SymbolTable.Binds sections (String.ofList text) label address →
              (∀ p ∈ (pieces.drop (i + 1)).zip (replaced.drop (i + 1)), Text.decode? p.1 = none →
                SymbolTable.Spare sections label (Text.mended p.1) (Text.mended p.2)) →
              (t.extend sections lines).get? label = (t.extend sections others).get? label := by
  intro live pieces lines
  have hlive (printed : Text.Bytes) : live printed = .ok ((Text.byteLines printed).map Text.mended) :=
    result_read_dumper.mpr ⟨hcallable, printed, rfl, Text.lines_decodeLossy printed⟩
  refine ⟨hlive output, fun other hother => ?_⟩
  intro replaced others
  have hkept (i : Nat) (piece : Text.Bytes) (text : List Char) (hpiece : pieces[i]? = some piece)
      (htext : Text.decode? piece = some text) :
      lines[i]? = some (String.ofList text) ∧ others[i]? = some (String.ofList text) := by
    have hreplaced := hother.getElem?_of_decode? hpiece (Option.isSome_of_eq_some htext)
    rw [← Text.mended_of_decode? htext, List.getElem?_map, List.getElem?_map, hpiece, hreplaced]
    exact ⟨rfl, rfl⟩
  refine ⟨hlive other, ?_, hkept, fun t sections label => ⟨fun hspare => ?_, ?_⟩⟩
  · rw [List.length_map, List.length_map, List.Forall₂.length_eq hother]
  · exact (hother.alikeFor_drop 0 hspare).get?_extend rfl
  · intro i piece text address hpiece htext hbinds hspare
    obtain ⟨hline, hline'⟩ := hkept i piece text hpiece htext
    exact (hother.alikeFor_drop (i + 1) hspare).get?_extend_of_binds hline hline' hbinds

/-- A character breaks off in front of a line end, and in its place there could be a row. -/
theorem DumpSource.damage_stays_in_its_line_of_broken_character :
    let main := "00001040 g     F .text\t00000010 main"
    let label := "00001050 l       .text\t00000000 .LBB0_1"
    let output := Text.encode main ++ [0x0A, 0xE2, 0x82, 0x0D, 0x0A] ++ Text.encode label
    let other := Text.encode main ++ [0x0A] ++ Text.encode label ++ [0x0A] ++ Text.encode label
    let live := fun printed =>
      ((dumper "objdump" ⟨none⟩ (.ended (some 0) printed)).read "main.elf").result
    let lines := [main, "\uFFFD", label]
    callable "objdump" ∧ live output = .ok lines ∧ Text.ReplacesDamage output other ∧
      live other = .ok [main, label, label] ∧
      (SymbolTable.empty.extend [".text"] lines).get? "main" =
        (SymbolTable.empty.extend [".text"] [main, label, label]).get? "main" := by
  intro main label output other live lines
  have hcallable : callable "objdump" := by decide +kernel
  have hpieces : Text.byteLines output = [Text.encode main, [0xE2, 0x82], Text.encode label] := by
    decide +kernel
  have hreplaced : Text.byteLines other =
      [Text.encode main, Text.encode label, Text.encode label] := by decide +kernel
  have hother : Text.ReplacesDamage output other := by
    rw [Text.ReplacesDamage, hpieces, hreplaced]
    exact .cons (fun _ => rfl) (.cons (fun h => absurd h (by decide)) (.cons (fun _ => rfl) .nil))
  have hlines : (Text.byteLines output).map Text.mended = lines := by decide +kernel
  have hothers : (Text.byteLines other).map Text.mended = [main, label, label] := by decide +kernel
  obtain ⟨hlive, hreplace⟩ := damage_stays_in_its_line hcallable ⟨none⟩ "main.elf" output
  obtain ⟨hlive', -, -, htable⟩ := hreplace other hother
  have hspare : SymbolTable.Spare [".text"] "main" "\uFFFD" label := by
    have hdamaged : SymbolTable.acceptedRow? [".text"] "\uFFFD" = none := by decide +kernel
    have hlabel : SymbolTable.acceptedRow? [".text"] label = some ⟨0x1050, ".text", ".LBB0_1"⟩ := by
      decide +kernel
    intro address
    simp [SymbolTable.binds_iff, hdamaged, hlabel]
  have hget := (htable .empty [".text"] "main").1 fun p hp hdecode => by
    rw [hpieces, hreplaced] at hp
    obtain rfl | rfl | rfl : p = (Text.encode main, Text.encode main) ∨
        p = ([0xE2, 0x82], Text.encode label) ∨ p = (Text.encode label, Text.encode label) := by
      simpa using hp
    · rw [Text.decode?_encode] at hdecode
      cases hdecode
    · rwa [show Text.mended [0xE2, 0x82] = "\uFFFD" by decide +kernel,
        show Text.mended (Text.encode label) = label by decide +kernel]
    · rw [Text.decode?_encode] at hdecode
      cases hdecode
  rw [hlines] at hlive hget
  rw [hothers] at hlive' hget
  exact ⟨hcallable, hlive, hother, hlive', hget⟩

end CodeMap
