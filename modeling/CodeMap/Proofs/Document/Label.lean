import CodeMap.Document.MachineFunction
import CodeMap.Proofs.Text.Pieces

/-! # Labels taken apart

A label is made of the text of a function and the text of a block with an underscore in between.
Both texts may have underscores of their own. If that of the block has none, the last underscore of
the label is the one in between, and the label gives both texts back (`blockLabel_inj`). What it
gives back are texts, not names: the number `7` and the string `7` make the same labels.
-/

namespace CodeMap

namespace Name

/-- The text of the name has no underscore. -/
def IsPlain (name : Name) : Prop := '_' ∉ name.text.toList

instance (name : Name) : Decidable name.IsPlain :=
  inferInstanceAs (Decidable ('_' ∉ name.text.toList))

/-- A number is written in digits alone. -/
theorem isPlain_number (n : UInt64) : (number n).IsPlain := by
  intro h
  rw [text, Nat.toList_repr] at h
  have hdigit : ('_').isDigit := Nat.isDigit_of_mem_toDigits (by decide) (by decide) h
  cases hdigit

/-- The digits of a number give it back, so numbers are told apart by their texts. -/
theorem text_number_inj {m n : UInt64} : (number m).text = (number n).text ↔ m = n := by
  refine ⟨fun h => ?_, congrArg fun n => (number n).text⟩
  have hdigits : Nat.toDigits 10 m.toNat = Nat.toDigits 10 n.toNat := by
    rw [← Nat.toList_repr, ← Nat.toList_repr]
    exact congrArg String.toList h
  have hread (k : Nat) : Nat.ofDigitChars 10 (Nat.toDigits 10 k) 0 = k :=
    Nat.ofDigitChars_toDigits (by decide) (by decide)
  rw [← UInt64.toNat_inj, ← hread m.toNat, hdigits, hread]

end Name

theorem toList_blockLabel (function block : String) :
    (blockLabel function block).toList =
      ['.', 'L', 'B', 'B'] ++ function.toList ++ '_' :: block.toList := by
  simp [blockLabel]

/-- Labels of blocks without underscores are equal only if their functions and their blocks are. -/
theorem blockLabel_inj {f g b c : String} (hb : '_' ∉ b.toList) (hc : '_' ∉ c.toList) :
    blockLabel f b = blockLabel g c ↔ f = g ∧ b = c := by
  rw [← String.toList_inj, toList_blockLabel, toList_blockLabel, Text.append_cons_inj hb hc,
    List.append_cancel_left_eq, String.toList_inj, String.toList_inj]

/-- An underscore of a block may be taken for the one in between. -/
example : blockLabel "12" "7_0" = blockLabel "12_7" "0" := by decide +kernel

/-- Within one function, labels are equal only if their blocks are, underscores or not. -/
theorem blockLabel_right_inj {f b c : String} : blockLabel f b = blockLabel f c ↔ b = c := by
  rw [blockLabel, blockLabel, String.append_right_inj]

/-- The label of a function is that of its blocks with the text `0`, and of no other one. -/
theorem MachineFunction.entryLabel_eq_label (f : MachineFunction) (b : Block) :
    f.entryLabel = b.label f.name ↔ b.name.text = "0" := by
  rw [entryLabel, Block.label, blockLabel_right_inj, eq_comm]

namespace Name

/-- **Labels tell names apart.** As long as the names of blocks have no underscores, two labels are
equal if and only if their functions have the same text and their blocks have; the names of the
functions may have any underscores. So with numbers for names, another function or another block
always has another label. The label of a function is that of a block of it if and only if the text
of the block is `0`. -/
theorem label_tells_function_and_block :
    (∀ f g b c : Name, b.IsPlain → c.IsPlain →
      (blockLabel f.text b.text = blockLabel g.text c.text ↔ f.text = g.text ∧ b.text = c.text)) ∧
      (∀ f g b c : UInt64, (f, b) ≠ (g, c) →
        blockLabel (number f).text (number b).text ≠ blockLabel (number g).text (number c).text) ∧
      ∀ (f : MachineFunction) (b : Block), f.entryLabel = b.label f.name ↔ b.name.text = "0" := by
  have htexts {f g b c : Name} (hb : b.IsPlain) (hc : c.IsPlain) :
      blockLabel f.text b.text = blockLabel g.text c.text ↔ f.text = g.text ∧ b.text = c.text :=
    blockLabel_inj hb hc
  refine ⟨fun f g b c hb hc => htexts hb hc, ?_, MachineFunction.entryLabel_eq_label⟩
  intro f g b c hne hlabel
  obtain ⟨hf, hb⟩ := (htexts (isPlain_number b) (isPlain_number c)).mp hlabel
  exact hne (Prod.ext (text_number_inj.mp hf) (text_number_inj.mp hb))

/-- The labels of the function `12_7` begin like those of `12`. -/
theorem label_tells_function_and_block_of_common_beginning :
    let f : MachineFunction := .ofBlocks (.string "12_7") none [.ofSizes 0 [4], .ofSizes 70 [4]]
    ((number 0).IsPlain ∧ (string "0").IsPlain ∧ (string "7").IsPlain) ∧
      blockLabel f.name.text (number 0).text = blockLabel f.name.text (string "0").text ∧
      blockLabel f.name.text (number 0).text ≠ blockLabel (number 12).text (string "7").text ∧
      ((12, 3) : UInt64 × UInt64) ≠ (1, 23) ∧
      blockLabel (number 12).text (number 3).text ≠ blockLabel (number 1).text (number 23).text ∧
      f.entryLabel = (Block.ofSizes 0 [4]).label f.name ∧
      f.entryLabel ≠ (Block.ofSizes 70 [4]).label f.name := by
  intro f
  obtain ⟨htexts, hnumbers, hentry⟩ := label_tells_function_and_block
  have hzero : (string "0").IsPlain := by decide
  have hseven : (string "7").IsPlain := by decide
  have hpair : ((12, 3) : UInt64 × UInt64) ≠ (1, 23) := by decide
  refine ⟨⟨isPlain_number 0, hzero, hseven⟩, ?_, ?_, hpair, hnumbers 12 1 3 23 hpair, ?_, ?_⟩
  · exact (htexts _ _ _ _ (isPlain_number 0) hzero).mpr ⟨rfl, by decide +kernel⟩
  · intro h
    have hf : f.name.text = (number 12).text := ((htexts _ _ _ _ (isPlain_number 0) hseven).mp h).1
    exact absurd hf (by decide +kernel)
  · exact (hentry f _).mpr (by decide +kernel)
  · exact mt (hentry f _).mp (by decide +kernel)

end Name

end CodeMap
