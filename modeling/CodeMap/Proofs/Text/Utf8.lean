import CodeMap.Failure

/-! # Encoded text decoded

The bytes that encode a text are decoded to the text. The decoder goes through the bytes of one
character at a time: the lead byte leaves it with the bounds that the second byte has to meet, and
every byte of the character's encoding meets them.
-/

namespace CodeMap.Text

namespace Decoder

variable {emitted : List (Option Char)} {b : UInt8}

/-! ## Single bytes -/

/-- A byte where a character begins, by its value. -/
theorem step_start {n : Nat} (hb : b.toNat = n) :
    step ⟨emitted, none⟩ b =
      if n < 0x80 then ⟨some (Char.ofNat n) :: emitted, none⟩
      else if n < 0xC2 then ⟨none :: emitted, none⟩
      else if n < 0xE0 then ⟨emitted, some ⟨n - 0xC0, 1, 0x80, 0xBF⟩⟩
      else if n < 0xF0 then
        ⟨emitted, some ⟨n - 0xE0, 2, if n = 0xE0 then 0xA0 else 0x80,
          if n = 0xED then 0x9F else 0xBF⟩⟩
      else if n < 0xF5 then
        ⟨emitted, some ⟨n - 0xF0, 3, if n = 0xF0 then 0x90 else 0x80,
          if n = 0xF4 then 0x8F else 0xBF⟩⟩
      else ⟨none :: emitted, none⟩ := by
  subst hb
  simp only [step, lead, UInt8.lt_iff_toNat_lt, ← UInt8.toNat_inj]
  rfl

/-- The last byte of a character ends it. -/
theorem step_last {value m : Nat} {low high : UInt8} (hb : b.toNat = m + 0x80)
    (hlow : low.toNat ≤ m + 0x80) (hhigh : m + 0x80 ≤ high.toNat) :
    step ⟨emitted, some ⟨value, 1, low, high⟩⟩ b =
      ⟨some (Char.ofNat (value * 64 + m)) :: emitted, none⟩ := by
  simp [step, UInt8.le_iff_toNat_le, hb, hlow, hhigh]

/-- A byte between the first and the last adds six bits. -/
theorem step_middle {value lacking m : Nat} {low high : UInt8} (hb : b.toNat = m + 0x80)
    (hlow : low.toNat ≤ m + 0x80) (hhigh : m + 0x80 ≤ high.toNat) :
    step ⟨emitted, some ⟨value, lacking + 2, low, high⟩⟩ b =
      ⟨emitted, some ⟨value * 64 + m, lacking + 1, 0x80, 0xBF⟩⟩ := by
  simp [step, UInt8.le_iff_toNat_le, hb, hlow, hhigh]

/-! ## Characters -/

theorem toNat_ofNat {n : Nat} (h : n < 256) : (UInt8.ofNat n).toNat = n :=
  UInt8.toNat_ofNat_of_lt' h

/-- A byte with the low six bits of a number. -/
theorem toNat_tail (n : Nat) : (UInt8.ofNat (n % 0x40 + 0x80)).toNat = n % 0x40 + 0x80 :=
  toNat_ofNat (by omega)

theorem le_tail (n : Nat) : UInt8.toNat 0x80 ≤ n % 0x40 + 0x80 := Nat.le_add_left _ _

theorem tail_le (n : Nat) : n % 0x40 + 0x80 ≤ UInt8.toNat 0xBF :=
  Nat.add_le_add_right (Nat.le_of_lt_succ (Nat.mod_lt n (by decide))) 0x80

/-- A lower bound that is raised behind one lead byte. -/
theorem toNat_ite_le {p : Prop} [Decidable p] {raised low : UInt8} {m : Nat}
    (h : p → raised.toNat ≤ m) (hlow : low.toNat ≤ m) :
    UInt8.toNat (if p then raised else low) ≤ m := by
  split
  · next hp => exact h hp
  · exact hlow

/-- An upper bound that is lowered behind one lead byte. -/
theorem le_toNat_ite {p : Prop} [Decidable p] {lowered high : UInt8} {m : Nat}
    (h : p → m ≤ lowered.toNat) (hhigh : m ≤ high.toNat) :
    m ≤ UInt8.toNat (if p then lowered else high) := by
  split
  · next hp => exact h hp
  · exact hhigh

theorem foldl_step_two {n : Nat} (h : 0x80 ≤ n) (h' : n ≤ 0x7FF) :
    [UInt8.ofNat (n / 64 % 0x20 + 0xC0), UInt8.ofNat (n % 0x40 + 0x80)].foldl step
      ⟨emitted, none⟩ = ⟨some (Char.ofNat n) :: emitted, none⟩ := by
  have hlead : (UInt8.ofNat (n / 64 % 0x20 + 0xC0)).toNat = n / 64 + 0xC0 := by
    rw [toNat_ofNat (by omega)]
    omega
  have hvalue : (n / 64 + 0xC0 - 0xC0) * 64 + n % 0x40 = n := by omega
  rw [List.foldl_cons, step_start hlead, if_neg (by omega), if_neg (by omega),
    if_pos (by omega), List.foldl_cons, step_last (toNat_tail n) (le_tail n) (tail_le n),
    List.foldl_nil, hvalue]

/-- Behind the lead bytes `E0` and `ED` the second byte is bounded more narrowly. -/
theorem foldl_step_three {n : Nat} (h : 0x800 ≤ n) (h' : n ≤ 0xFFFF)
    (hn : n < 0xD800 ∨ 0xDFFF < n) :
    [UInt8.ofNat (n / 4096 % 0x10 + 0xE0), UInt8.ofNat (n / 64 % 0x40 + 0x80),
      UInt8.ofNat (n % 0x40 + 0x80)].foldl step ⟨emitted, none⟩ =
        ⟨some (Char.ofNat n) :: emitted, none⟩ := by
  have hlead : (UInt8.ofNat (n / 4096 % 0x10 + 0xE0)).toNat = n / 4096 + 0xE0 := by
    rw [toNat_ofNat (by omega)]
    omega
  have hvalue : ((n / 4096 + 0xE0 - 0xE0) * 64 + n / 64 % 0x40) * 64 + n % 0x40 = n := by omega
  have hlow (h : n / 4096 + 0xE0 = 0xE0) : UInt8.toNat 0xA0 ≤ n / 64 % 0x40 + 0x80 := by
    show 0xA0 ≤ n / 64 % 0x40 + 0x80
    omega
  have hhigh (h : n / 4096 + 0xE0 = 0xED) : n / 64 % 0x40 + 0x80 ≤ UInt8.toNat 0x9F := by
    show n / 64 % 0x40 + 0x80 ≤ 0x9F
    omega
  rw [List.foldl_cons, step_start hlead, if_neg (by omega), if_neg (by omega),
    if_neg (by omega), if_pos (by omega), List.foldl_cons,
    step_middle (toNat_tail (n / 64)) (toNat_ite_le hlow (le_tail _))
      (le_toNat_ite hhigh (tail_le _)),
    List.foldl_cons, step_last (toNat_tail n) (le_tail n) (tail_le n), List.foldl_nil, hvalue]

/-- Behind the lead bytes `F0` and `F4` the second byte is bounded more narrowly. -/
theorem foldl_step_four {n : Nat} (h : 0x10000 ≤ n) (h' : n < 0x110000) :
    [UInt8.ofNat (n / 262144 % 0x08 + 0xF0), UInt8.ofNat (n / 4096 % 0x40 + 0x80),
      UInt8.ofNat (n / 64 % 0x40 + 0x80), UInt8.ofNat (n % 0x40 + 0x80)].foldl step
        ⟨emitted, none⟩ = ⟨some (Char.ofNat n) :: emitted, none⟩ := by
  have hlead : (UInt8.ofNat (n / 262144 % 0x08 + 0xF0)).toNat = n / 262144 + 0xF0 := by
    rw [toNat_ofNat (by omega)]
    omega
  have hvalue : (((n / 262144 + 0xF0 - 0xF0) * 64 + n / 4096 % 0x40) * 64 + n / 64 % 0x40) * 64 +
      n % 0x40 = n := by omega
  have hlow (h : n / 262144 + 0xF0 = 0xF0) : UInt8.toNat 0x90 ≤ n / 4096 % 0x40 + 0x80 := by
    show 0x90 ≤ n / 4096 % 0x40 + 0x80
    omega
  have hhigh (h : n / 262144 + 0xF0 = 0xF4) : n / 4096 % 0x40 + 0x80 ≤ UInt8.toNat 0x8F := by
    show n / 4096 % 0x40 + 0x80 ≤ 0x8F
    omega
  rw [List.foldl_cons, step_start hlead, if_neg (by omega), if_neg (by omega),
    if_neg (by omega), if_neg (by omega), if_pos (by omega), List.foldl_cons,
    step_middle (toNat_tail (n / 4096)) (toNat_ite_le hlow (le_tail _))
      (le_toNat_ite hhigh (tail_le _)),
    List.foldl_cons, step_middle (toNat_tail (n / 64)) (le_tail _) (tail_le _),
    List.foldl_cons, step_last (toNat_tail n) (le_tail n) (tail_le n), List.foldl_nil, hvalue]

/-- The bytes of a character leave the decoder behind this character. -/
theorem foldl_step_utf8EncodeChar (c : Char) :
    (String.utf8EncodeChar c).foldl step ⟨emitted, none⟩ = ⟨some c :: emitted, none⟩ := by
  have hchar : c.toNat < 0xD800 ∨ 0xDFFF < c.toNat ∧ c.toNat < 0x110000 := c.valid
  have hc : Char.ofNat c.val.toNat = c := Char.ofNat_toNat c
  have hn : c.val.toNat = c.toNat := rfl
  unfold String.utf8EncodeChar
  simp only
  split
  · have hb : (UInt8.ofNat c.val.toNat).toNat = c.val.toNat := toNat_ofNat (by omega)
    rw [List.foldl_cons, step_start hb, if_pos (by omega), List.foldl_nil, hc]
  · split
    · rw [foldl_step_two (by omega) (by omega), hc]
    · split
      · rw [foldl_step_three (by omega) (by omega) (by omega), hc]
      · rw [foldl_step_four (by omega) (by omega), hc]

theorem foldl_step_encode (cs : List Char) :
    (cs.flatMap String.utf8EncodeChar).foldl step ⟨emitted, none⟩ =
      ⟨(cs.map some).reverse ++ emitted, none⟩ := by
  induction cs generalizing emitted with
  | nil => rfl
  | cons c cs ih =>
    rw [List.flatMap_cons, List.foldl_append, foldl_step_utf8EncodeChar, ih, List.map_cons,
      List.reverse_cons, List.append_assoc, List.singleton_append]

end Decoder

theorem mapM_id_eq_some_iff {α : Type} {units : List (Option α)} {as : List α} :
    units.mapM id = some as ↔ units = as.map some := by
  induction units generalizing as with
  | nil => exact Option.some_inj.trans (eq_comm.trans (List.map_eq_nil_iff.symm.trans eq_comm))
  | cons unit rest ih => cases as <;> simp [Option.bind_eq_some_iff, ih]

/-- The bytes that encode a text have no undecodable part. -/
theorem decodeUnits_encode (s : String) : decodeUnits (encode s) = s.toList.map some := by
  rw [decodeUnits, encode, Decoder.start, Decoder.foldl_step_encode, List.append_nil]
  show (s.toList.map some).reverse.reverse = _
  rw [List.reverse_reverse]

/-- The bytes that encode a text are decoded to this text. -/
theorem decode?_encode (s : String) : decode? (encode s) = some s.toList := by
  rw [decode?, mapM_id_eq_some_iff, decodeUnits_encode]

/-- Nothing of a text without damage is replaced. -/
theorem decodeLossy_of_decode? {bytes : Bytes} {text : List Char} (h : decode? bytes = some text) :
    decodeLossy bytes = text := by
  rw [decodeLossy, mapM_id_eq_some_iff.mp h, List.map_map]
  exact List.map_id text

/-- Nothing of a text is replaced, be there replacement characters in it or not. -/
theorem decodeLossy_encode (s : String) : decodeLossy (encode s) = s.toList :=
  decodeLossy_of_decode? (decode?_encode s)

end CodeMap.Text

namespace CodeMap

/-- The text of a file that holds its bytes. -/
theorem FileRead.text_encode (s : String) : text (.ok (Text.encode s)) = .ok s.toList := by
  rw [text]
  simp only [Text.decode?_encode]

theorem FileRead.parse_encode {α : Type} (text : String)
    (read : String → Except Json.Refusal α) :
    FileRead.parse (.ok (Text.encode text)) read = (read text).mapError Failure.ofRefusal := by
  rw [parse, text_encode]
  simp only [String.ofList_toList]
  cases read text <;> rfl

end CodeMap
