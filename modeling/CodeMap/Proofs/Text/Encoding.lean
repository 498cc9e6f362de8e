import CodeMap.Proofs.Text.Damage

/-! # What is decoded was encoded

Bytes that are decoded to a text are the bytes that encode it (`decode?_eq_some_iff`): no other
bytes are taken for the text, neither longer forms of a character nor halves of one. The lead byte
of a character leaves the decoder with the bounds of what can become of it, and whatever number
within the bounds it is, its encoding begins with the bytes so far (`Begun.IsStartedBy`).
-/

namespace CodeMap.Text

/-! ## Characters begun -/

/-- The last bytes of a character past U+007F: six bits each. -/
def tailBytes : Nat → Nat → Bytes
  | 0, _ => []
  | k + 1, n => UInt8.ofNat (n / 64 ^ k % 64 + 0x80) :: tailBytes k n

namespace Begun

/-- Whatever becomes of the character begun, its encoding begins with these bytes. -/
structure IsStartedBy (start : Bytes) (p : Begun) : Prop where
  low : 0x80 ≤ p.low.toNat
  high : p.high.toNat ≤ 0xBF
  lacking : 0 < p.lacking
  encode_eq : ∀ n, p.least ≤ n → n < p.bound →
    String.utf8EncodeChar (Char.ofNat n) = start ++ tailBytes p.lacking n

variable {start : Bytes} {p : Begun} {b : UInt8} {n : Nat}

/-- The encoding of a character past U+007F: a lead byte and one to three bytes behind it. -/
theorem utf8EncodeChar_ofNat (hvalid : n < 0xD800 ∨ 0xDFFF < n ∧ n < 0x110000) (hn : 0x80 ≤ n) :
    String.utf8EncodeChar (Char.ofNat n) =
      if n < 0x800 then UInt8.ofNat (n / 64 + 0xC0) :: tailBytes 1 n
      else if n < 0x10000 then UInt8.ofNat (n / 4096 + 0xE0) :: tailBytes 2 n
      else UInt8.ofNat (n / 262144 + 0xF0) :: tailBytes 3 n := by
  have hval : (Char.ofNat n).val.toNat = n := toNat_ofNat_of_valid hvalid
  have htwo : n < 0x800 ↔ n ≤ 0x7FF := Nat.lt_succ_iff
  have hthree : n < 0x10000 ↔ n ≤ 0xFFFF := Nat.lt_succ_iff
  have hascii : ¬n ≤ 0x7F := Nat.not_le.mpr hn
  unfold String.utf8EncodeChar
  simp only [hval, tailBytes, if_neg hascii, htwo, hthree]
  split
  · have hlead : n / 64 % 32 = n / 64 := by omega
    simp [hlead]
  · split
    · have hlead : n / 4096 % 16 = n / 4096 := by omega
      simp [hlead]
    · have hlead : n / 262144 % 8 = n / 262144 := by omega
      simp [hlead]

theorem isStartedBy_two (h : 0xC2 ≤ b.toNat) (h' : b.toNat < 0xE0) :
    IsStartedBy [b] ⟨b.toNat - 0xC0, 1, 0x80, 0xBF⟩ := by
  refine ⟨Nat.le_refl _, Nat.le_refl _, Nat.one_pos, fun n hleast hbound => ?_⟩
  simp [least, bound] at hleast hbound
  have hlead : n / 64 + 0xC0 = b.toNat := by omega
  rw [utf8EncodeChar_ofNat (by omega) (by omega), if_pos (by omega), hlead, UInt8.ofNat_toNat]
  rfl

theorem isStartedBy_three (h : 0xE0 ≤ b.toNat) (h' : b.toNat < 0xF0) :
    IsStartedBy [b] ⟨b.toNat - 0xE0, 2, if b.toNat = 0xE0 then 0xA0 else 0x80,
      if b.toNat = 0xED then 0x9F else 0xBF⟩ := by
  refine ⟨?_, ?_, Nat.succ_pos _, fun n hleast hbound => ?_⟩
  · show 0x80 ≤ UInt8.toNat (if _ then _ else _)
    split <;> decide
  · show UInt8.toNat (if _ then _ else _) ≤ 0xBF
    split <;> decide
  · have hrange : n / 4096 + 0xE0 = b.toNat ∧ 0x800 ≤ n ∧ (n < 0xD800 ∨ 0xDFFF < n) := by
      simp only [least, bound] at hleast hbound
      split at hleast <;> split at hbound <;> simp at hleast hbound <;> omega
    obtain ⟨hlead, hmin, hvalid⟩ := hrange
    rw [utf8EncodeChar_ofNat (by omega) (by omega), if_neg (by omega), if_pos (by omega), hlead,
      UInt8.ofNat_toNat]
    rfl

theorem isStartedBy_four (h : 0xF0 ≤ b.toNat) (h' : b.toNat < 0xF5) :
    IsStartedBy [b] ⟨b.toNat - 0xF0, 3, if b.toNat = 0xF0 then 0x90 else 0x80,
      if b.toNat = 0xF4 then 0x8F else 0xBF⟩ := by
  refine ⟨?_, ?_, Nat.succ_pos _, fun n hleast hbound => ?_⟩
  · show 0x80 ≤ UInt8.toNat (if _ then _ else _)
    split <;> decide
  · show UInt8.toNat (if _ then _ else _) ≤ 0xBF
    split <;> decide
  · have hrange : n / 262144 + 0xF0 = b.toNat ∧ 0x10000 ≤ n ∧ n < 0x110000 := by
      simp only [least, bound] at hleast hbound
      split at hleast <;> split at hbound <;> simp at hleast hbound <;> omega
    obtain ⟨hlead, hmin, hmax⟩ := hrange
    rw [utf8EncodeChar_ofNat (by omega) (by omega), if_neg (by omega), if_neg (by omega), hlead,
      UInt8.ofNat_toNat]
    rfl

namespace IsStartedBy

/-- The number that the bytes up to this one leave over has the six bits of this one. -/
theorem mod_eq (value : Nat) {n k : Nat} (hb : 0x80 ≤ b.toNat) (hb' : b.toNat ≤ 0xBF)
    (hleast : (value * 64 + (b.toNat - 0x80)) * 64 ^ k ≤ n)
    (hbound : n < (value * 64 + (b.toNat - 0x80) + 1) * 64 ^ k) :
    UInt8.ofNat (n / 64 ^ k % 64 + 0x80) = b := by
  have hdiv : n / 64 ^ k = value * 64 + (b.toNat - 0x80) :=
    Nat.div_eq_of_lt_le hleast hbound
  have hsum : n / 64 ^ k % 64 + 0x80 = b.toNat := by omega
  rw [hsum, UInt8.ofNat_toNat]

/-- The last byte completes the encoding of the character. -/
theorem last (hp : p.IsStartedBy start) (hlow : p.low ≤ b) (hhigh : b ≤ p.high)
    (hlast : p.lacking ≤ 1) :
    String.utf8EncodeChar (Char.ofNat (p.value * 64 + (b.toNat - 0x80))) = start ++ [b] := by
  obtain ⟨value, lacking, low, high⟩ := p
  obtain ⟨hlow', hhigh', hlacking, hencode⟩ := hp
  obtain rfl : lacking = 1 := Nat.le_antisymm hlast hlacking
  rw [UInt8.le_iff_toNat_le] at hlow hhigh
  simp only at hlow hhigh hlow' hhigh'
  have hbits : UInt8.ofNat ((value * 64 + (b.toNat - 0x80)) / 64 ^ 0 % 64 + 0x80) = b :=
    mod_eq value (by omega) (by omega) (by simp) (by simp)
  rw [hencode _ (by simp [least]; omega) (by simp [bound]; omega), tailBytes, hbits, tailBytes]

/-- A byte before the last one is the next one of the encoding. -/
theorem next (hp : p.IsStartedBy start) (hlow : p.low ≤ b) (hhigh : b ≤ p.high)
    (hmore : ¬p.lacking ≤ 1) : IsStartedBy (start ++ [b])
      ⟨p.value * 64 + (b.toNat - 0x80), p.lacking - 1, 0x80, 0xBF⟩ := by
  obtain ⟨value, lacking, low, high⟩ := p
  obtain ⟨hlow', hhigh', -, hencode⟩ := hp
  obtain ⟨k, rfl⟩ : ∃ k, lacking = k + 2 :=
    ⟨lacking - 2, (Nat.sub_add_cancel (Nat.lt_of_not_le hmore)).symm⟩
  rw [UInt8.le_iff_toNat_le] at hlow hhigh
  simp only at hlow hhigh hlow' hhigh'
  refine ⟨Nat.le_refl _, Nat.le_refl _, Nat.succ_pos k, fun n hleast hbound => ?_⟩
  have hleast : (value * 64 + (b.toNat - 0x80)) * 64 ^ (k + 1) ≤ n := by
    rwa [← least_middle]
  have hbound : n < (value * 64 + (b.toNat - 0x80) + 1) * 64 ^ (k + 1) := by
    rwa [← bound_middle]
  have hbelow : (value * 64 + (low.toNat - 0x80)) * 64 ^ (k + 1) ≤ n :=
    Nat.le_trans (Nat.mul_le_mul_right _ (by omega)) hleast
  have habove : n < (value * 64 + (high.toNat - 0x80) + 1) * 64 ^ (k + 1) :=
    Nat.lt_of_lt_of_le hbound (Nat.mul_le_mul_right _ (by omega))
  rw [hencode n hbelow habove, tailBytes, mod_eq value (by omega) (by omega) hleast hbound,
    List.append_assoc]
  rfl

end IsStartedBy

end Begun

/-! ## One byte more -/

namespace Decoder

variable {d : Decoder} {emitted : List (Option Char)} {bytes : Bytes} {b : UInt8}

/-- The decoder has read the encodings of some characters, and the beginning of one more if one is
begun. -/
structure HasDecoded (bytes : Bytes) (d : Decoder) : Prop where
  exists_chars : ∃ (cs : List Char) (start : Bytes), d.emitted = (cs.map some).reverse ∧
    bytes = cs.flatMap String.utf8EncodeChar ++ start ∧
      (d.begun = none → start = []) ∧ ∀ p ∈ d.begun, p.IsStartedBy start

theorem hasDecoded_begun {cs : List Char} {start : Bytes} {p : Begun} (hp : p.IsStartedBy start) :
    HasDecoded (cs.flatMap String.utf8EncodeChar ++ start) ⟨(cs.map some).reverse, some p⟩ := by
  refine ⟨cs, start, rfl, rfl, nofun, ?_⟩
  rintro _ ⟨⟩
  exact hp

theorem hasDecoded_char (cs : List Char) (c : Char) :
    HasDecoded (cs.flatMap String.utf8EncodeChar ++ String.utf8EncodeChar c)
      ⟨some c :: (cs.map some).reverse, none⟩ :=
  ⟨cs ++ [c], [], by simp, by simp, fun _ => rfl, nofun⟩

/-- A byte where a character begins is damage, or it begins one. -/
theorem hasDecoded_lead (cs : List Char) (b : UInt8) :
    none ∈ (lead (cs.map some).reverse b).emitted ∨
      HasDecoded (cs.flatMap String.utf8EncodeChar ++ [b]) (lead (cs.map some).reverse b) := by
  -- A lead byte is read as the decoder reads it between two characters.
  show none ∈ (step ⟨_, none⟩ b).emitted ∨ HasDecoded _ (step ⟨_, none⟩ b)
  rw [step_start rfl]
  split
  · next hascii =>
    have hval : (Char.ofNat b.toNat).val.toNat = b.toNat :=
      Begun.toNat_ofNat_of_valid (.inl (Nat.lt_trans hascii (by decide)))
    have hencode : String.utf8EncodeChar (Char.ofNat b.toNat) = [b] := by
      unfold String.utf8EncodeChar
      simp only [hval]
      rw [if_pos (Nat.le_of_lt_succ hascii), UInt8.ofNat_toNat]
    have h := hasDecoded_char cs (Char.ofNat b.toNat)
    rw [hencode] at h
    exact .inr h
  · split
    · exact .inl List.mem_cons_self
    · split
      · exact .inr (hasDecoded_begun (Begun.isStartedBy_two (by omega) (by omega)))
      · split
        · exact .inr (hasDecoded_begun (Begun.isStartedBy_three (by omega) (by omega)))
        · split
          · exact .inr (hasDecoded_begun (Begun.isStartedBy_four (by omega) (by omega)))
          · exact .inl List.mem_cons_self

/-- A mark stays. -/
theorem none_mem_step (h : none ∈ d.emitted) (b : UInt8) : none ∈ (d.step b).emitted := by
  unfold step lead
  repeat' split
  all_goals simp [h]

theorem HasDecoded.step (h : d.HasDecoded bytes) (b : UInt8) :
    none ∈ (d.step b).emitted ∨ (d.step b).HasDecoded (bytes ++ [b]) := by
  obtain ⟨emitted, begun⟩ := d
  obtain ⟨cs, start, rfl, rfl, hnone, hbegun⟩ := h
  cases begun with
  | none =>
    rw [hnone rfl, List.append_nil]
    exact hasDecoded_lead cs b
  | some p =>
    have hp := hbegun p rfl
    rw [Decoder.step, List.append_assoc]
    simp only [Bool.and_eq_true, decide_eq_true_eq]
    split
    · next hrange =>
      split
      · next hlast =>
        have hchar := hasDecoded_char cs (Char.ofNat (p.value * 64 + (b.toNat - 0x80)))
        rw [hp.last hrange.1 hrange.2 hlast] at hchar
        exact .inr hchar
      · next hmore => exact .inr (hasDecoded_begun (hp.next hrange.1 hrange.2 hmore))
    · exact .inl (none_mem_step (d := ⟨none :: _, none⟩) List.mem_cons_self b)

theorem hasDecoded_foldl_step (bytes : Bytes) :
    none ∈ (bytes.foldl step start).emitted ∨ (bytes.foldl step start).HasDecoded bytes := by
  induction bytes using List.reverseRecOn with
  | nil => exact .inr ⟨[], [], rfl, rfl, fun _ => rfl, nofun⟩
  | append_singleton bytes b ih =>
    rw [List.foldl_append]
    rcases ih with hmark | hdecoded
    · exact .inl (none_mem_step hmark b)
    · exact hdecoded.step b

end Decoder

/-! ## Texts -/

/-- Bytes are decoded to a text if and only if they encode it. -/
theorem decode?_eq_some_iff {bytes : Bytes} {text : List Char} :
    decode? bytes = some text ↔ bytes = encode (String.ofList text) := by
  constructor
  · intro h
    rw [decode?, mapM_id_eq_some_iff, decodeUnits, Decoder.finish] at h
    have hunits := congrArg List.reverse h
    rw [List.reverse_reverse] at hunits
    split at hunits
    · next hbegun =>
      rcases Decoder.hasDecoded_foldl_step bytes with hmark | ⟨cs, start, hcs, hbytes, hnone, -⟩
      · rw [hunits] at hmark
        simp at hmark
      · rw [hunits, List.reverse_inj] at hcs
        obtain rfl := (List.map_inj_right fun _ _ => Option.some.inj).mp hcs
        rw [hbytes, hnone hbegun, List.append_nil, encode, String.toList_ofList]
    · have hmark : none ∈ (text.map some).reverse := hunits ▸ List.mem_cons_self
      simp at hmark
  · rintro rfl
    rw [decode?_encode, String.toList_ofList]

end CodeMap.Text
