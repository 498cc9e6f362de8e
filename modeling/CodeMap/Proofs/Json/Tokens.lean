import CodeMap.Json.Reader.Scalar

/-! # Tokens read back

The printed form of a string or an integer is read back as it was, whatever stands behind it. Only a
number has to be followed by something that does not go on with it (`EndsNumber`). Numbers that are
no integers are left out: their printed form need not be read as the same number.
-/

namespace CodeMap.Json

/-! ## Digits -/

/-- A number before this text ends where the text begins. -/
def EndsNumber (rest : List Char) : Prop :=
  ∀ c ∈ rest.head?, c.isDigit = false ∧ c ≠ '.' ∧ c ≠ 'e' ∧ c ≠ 'E'

theorem endsNumber_nil : EndsNumber [] := nofun

theorem endsNumber_cons {c : Char} {rest : List Char}
    (h : c.isDigit = false ∧ c ≠ '.' ∧ c ≠ 'e' ∧ c ≠ 'E') : EndsNumber (c :: rest) := by
  rintro d ⟨⟩
  exact h

/-- The digits before a text that goes on with no digit are taken off. -/
theorem takeDigits_append {digits rest : List Char} (hd : ∀ c ∈ digits, c.isDigit)
    (hr : EndsNumber rest) : takeDigits (digits ++ rest) = (digits, rest) := by
  have htake : rest.takeWhile Char.isDigit = [] ∧ rest.dropWhile Char.isDigit = rest := by
    cases rest with
    | nil => exact ⟨rfl, rfl⟩
    | cons c rest => simp [(hr c rfl).1]
  rw [takeDigits, List.takeWhile_append_of_pos hd, List.dropWhile_append_of_pos hd, htake.1,
    htake.2, List.append_nil]

theorem le_ofDigitChars (digits : List Char) (n : Nat) : n ≤ Nat.ofDigitChars 10 digits n := by
  induction digits generalizing n with
  | nil => exact Nat.le_refl n
  | cons c rest ih =>
    rw [Nat.ofDigitChars_cons]
    exact Nat.le_trans (by omega) (ih _)

/-- Digits of a number that fits are all gathered. -/
theorem gatherWhole_eq {digits : List Char} {n : Nat}
    (h : Nat.ofDigitChars 10 digits n ≤ greatestSignificand) :
    gatherWhole n 0 digits = (Nat.ofDigitChars 10 digits n, 0) := by
  induction digits generalizing n with
  | nil => rfl
  | cons c rest ih =>
    have hstep : Nat.ofDigitChars 10 rest (withDigit n c) = Nat.ofDigitChars 10 (c :: rest) n := by
      rw [Nat.ofDigitChars_cons, withDigit, Nat.mul_comm]
      rfl
    rw [← hstep] at h ⊢
    have hfits : withDigit n c ≤ greatestSignificand := Nat.le_trans (le_ofDigitChars rest _) h
    rw [gatherWhole, if_pos (by simpa using hfits), ih h]

/-- A number but zero is not spelled with a zero in front. -/
theorem head?_toDigits_ne_zero {n : Nat} (h : 0 < n) : (Nat.toDigits 10 n).head? ≠ some '0' := by
  induction n using Nat.strongRecOn with
  | ind n ih =>
    by_cases hlt : n < 10
    · rw [Nat.toDigits_of_lt_base hlt]
      have hdigit : ∀ m < 10, 0 < m → Nat.digitChar m ≠ '0' := by decide
      exact fun he => hdigit n hlt h (Option.some.inj he)
    · have hdiv : 0 < n / 10 := Nat.div_pos (Nat.not_lt.mp hlt) (by decide)
      rw [Nat.toDigits_of_base_le (by decide) (Nat.not_lt.mp hlt), List.head?_append]
      have hhead := ih (n / 10) (Nat.div_lt_self h (by decide)) hdiv
      cases hd : (Nat.toDigits 10 (n / 10)).head? with
      | none => exact absurd (List.head?_eq_none_iff.mp hd) Nat.toDigits_ne_nil
      | some c => rwa [hd] at hhead

/-! ## Numbers -/

/-- The number is an integer of 64 bits, with or without a sign. -/
def Number.isIntegral : Number → Bool
  | .natural _ | .negative _ => true
  | .real _ => false

theorem fraction_of_endsNumber {rest : List Char} (h : EndsNumber rest) :
    fraction rest = .ok ([], rest) := by
  unfold fraction
  split
  · exact absurd rfl (h '.' rfl).2.1
  · rfl

theorem power_of_endsNumber (zero : Bool) {rest : List Char} (h : EndsNumber rest) :
    power zero rest = .ok (.absent, rest) := by
  cases rest with
  | nil => rfl
  | cons c rest => simp [power, (h c rfl).2.2.1, (h c rfl).2.2.2]

/-- An integer is read off its digits. -/
theorem unsignedNumber_toDigits {negative : Bool} {n : Nat} {number : Number}
    (hn : n ≤ greatestSignificand) (hnumber : Number.ofInteger? negative n = some number)
    {rest : List Char} (h : EndsNumber rest) :
    unsignedNumber negative (Nat.toDigits 10 n ++ rest) = .ok (number, rest) := by
  have hdigits : ∀ c ∈ Nat.toDigits 10 n, c.isDigit := fun c hc =>
    Nat.isDigit_of_mem_toDigits (by decide) (by decide) hc
  have hgather : gatherWhole 0 0 (Nat.toDigits 10 n) = (n, 0) := by
    rw [gatherWhole_eq (by rwa [Nat.ofDigitChars_ten_toDigits]), Nat.ofDigitChars_ten_toDigits]
  have hfrom : numberFrom negative (Nat.toDigits 10 n) rest = .ok (number, rest) := by
    simp [numberFrom, fraction_of_endsNumber h, power_of_endsNumber _ h, Number.ofParts?, hgather,
      gatherFraction, hnumber]
  rw [unsignedNumber, takeDigits_append hdigits h]
  split
  · next he => exact absurd (Prod.mk.inj he).1 Nat.toDigits_ne_nil
  · next he => exact absurd (Prod.mk.inj he).1 Nat.toDigits_ne_nil
  · next second more after he =>
    -- a zero in front of another digit: the number is not zero, so it has none
    obtain ⟨he, -⟩ := Prod.mk.inj he
    rcases Nat.eq_zero_or_pos n with rfl | hpos
    · rw [Nat.toDigits_zero] at he
      cases he
    · exact absurd (congrArg List.head? he) (head?_toDigits_ne_zero hpos)
  · next he =>
    obtain ⟨rfl, rfl⟩ := Prod.mk.inj he
    exact hfrom

theorem toDigits_eq_cons (n : Nat) :
    ∃ c text, Nat.toDigits 10 n = c :: text ∧ c.isDigit := by
  obtain ⟨c, text, hc⟩ := List.exists_cons_of_ne_nil (Nat.toDigits_ne_nil (n := n) (b := 10))
  have hmem : c ∈ Nat.toDigits 10 n := hc ▸ List.mem_cons_self
  exact ⟨c, text, hc, Nat.isDigit_of_mem_toDigits (by decide) (by decide) hmem⟩

/-- The first character of an integer is a sign or a digit. -/
theorem Number.render_eq_cons {n : Number} (h : n.isIntegral) :
    ∃ c text, n.render = c :: text ∧ (c = '-' ∨ c.isDigit) := by
  cases n with
  | natural n =>
    obtain ⟨c, text, hc, hdigit⟩ := toDigits_eq_cons n.toNat
    exact ⟨c, text, hc, .inr hdigit⟩
  | negative n => exact ⟨'-', _, rfl, .inl rfl⟩
  | real x => cases h

/-- A printed integer is read back. -/
theorem numberAt_render {n : Number} (hn : n.isIntegral) {rest : List Char}
    (h : EndsNumber rest) : numberAt (n.render ++ rest) = .ok (n, rest) := by
  cases n with
  | natural n =>
    have hfits : n.toNat ≤ greatestSignificand := Nat.le_of_lt_succ n.toNat_lt
    have hread : unsignedNumber false (Nat.toDigits 10 n.toNat ++ rest) = .ok (.natural n, rest) :=
      unsignedNumber_toDigits hfits (by simp [Number.ofInteger?, hfits]) h
    obtain ⟨c, text, hc, hdigit⟩ := toDigits_eq_cons n.toNat
    show numberAt (Nat.toDigits 10 n.toNat ++ rest) = _
    rw [← hread, hc, List.cons_append, numberAt]
    rintro _ hsign
    obtain ⟨rfl, -⟩ := List.cons.inj hsign
    exact absurd hdigit (by decide)
  | negative n =>
    have hfits : n.val + 1 ≤ greatestSignificand := by
      have hlt := n.isLt
      rw [greatestSignificand]
      omega
    exact unsignedNumber_toDigits hfits (by simp [Number.ofInteger?]) h
  | real x => cases hn

/-! ## Strings -/

theorem hexDigit?_digitChar {n : Nat} (h : n < 16) :
    Text.hexDigit? (Nat.digitChar n) = some n := by
  have hdigit : ∀ m < 16, Text.hexDigit? (Nat.digitChar m) = some m := by decide
  exact hdigit n h

/-- A control character spelled by its number is read back. -/
theorem numbered_control {c : Char} (h : c.toNat < 0x20) (rest : List Char) :
    numbered ('0' :: '0' :: Nat.digitChar (c.toNat / 16) :: Nat.digitChar (c.toNat % 16) :: rest) =
      .ok (c, rest) := by
  have hzero : Text.hexDigit? '0' = some 0 := by decide
  have hhigh := hexDigit?_digitChar (n := c.toNat / 16) (by omega)
  have hlow := hexDigit?_digitChar (n := c.toNat % 16) (by omega)
  have hunit : ((0 * 16 + 0) * 16 + c.toNat / 16) * 16 + c.toNat % 16 = c.toNat := by omega
  rw [numbered, hexUnit]
  simp only [hzero, hhigh, hlow, hunit]
  rw [if_neg (by simp; omega), if_neg (by simp; omega), Char.ofNat_toNat]

theorem stringBody_escape {read s rest : List Char} {c : Char} (h : escape s = .ok (c, rest)) :
    stringBody read ('\\' :: s) = stringBody (c :: read) rest := by
  rw [stringBody, if_neg (by decide), if_pos rfl]
  split
  · next he => rw [h] at he; cases he
  · next he =>
    rw [h] at he
    obtain ⟨rfl, rfl⟩ := Prod.mk.inj (Except.ok.inj he)
    rfl

/-- The spelling of a character inside a string is read as this character. -/
theorem stringBody_escapeChar (read : List Char) (c : Char) (rest : List Char) :
    stringBody read (escapeChar c ++ rest) = stringBody (c :: read) rest := by
  unfold escapeChar
  split
  case h_8 c hquote hbackslash _ _ _ _ _ =>
    split
    · next hc => exact stringBody_escape (numbered_control hc rest)
    · next hc =>
      rw [List.singleton_append, stringBody, if_neg hquote, if_neg hbackslash, if_neg hc]
  all_goals exact stringBody_escape rfl

/-- A printed string is read back, behind its opening quote. -/
theorem stringBody_flatMap (read s rest : List Char) :
    stringBody read (s.flatMap escapeChar ++ '"' :: rest) =
      .ok (String.ofList (read.reverse ++ s), rest) := by
  induction s generalizing read with
  | nil => rw [List.flatMap_nil, List.nil_append, stringBody, if_pos rfl, List.append_nil]
  | cons c s ih =>
    rw [List.flatMap_cons, List.append_assoc, stringBody_escapeChar, ih, List.reverse_cons,
      List.append_assoc, List.singleton_append]

theorem stringBody_renderString (s : String) (rest : List Char) :
    stringBody [] (s.toList.flatMap escapeChar ++ '"' :: rest) = .ok (s, rest) := by
  rw [stringBody_flatMap, List.reverse_nil, List.nil_append, String.ofList_toList]

/-! ## Scalars -/

/-- No number in the value is other than an integer of 64 bits. -/
def Scalar.isIntegral : Scalar → Bool
  | .number n => n.isIntegral
  | .null | .bool _ | .string _ => true

/-- What begins with a sign or a digit is read as a number. -/
theorem scalar?_of_number {c : Char} (rest : List Char) (h : c = '-' ∨ c.isDigit) :
    scalar? (c :: rest) =
      some ((numberAt (c :: rest)).map fun p => (Scalar.number p.1, p.2)) := by
  have hne : ∀ d : Char, (d = '-' ∨ d.isDigit) = False → c ≠ d := by
    rintro d hd rfl
    exact hd ▸ h
  unfold scalar?
  split
  · next he => exact absurd (List.cons.inj he).1 (hne _ (by decide))
  · next he => exact absurd (List.cons.inj he).1 (hne _ (by decide))
  · next he => exact absurd (List.cons.inj he).1 (hne _ (by decide))
  · next he => exact absurd (List.cons.inj he).1 (hne _ (by decide))
  · next he =>
    obtain ⟨rfl, rfl⟩ := List.cons.inj he
    rw [if_pos (by simpa using h)]
  · next he => cases he

/-- A printed scalar is read back. -/
theorem scalar?_render {v : Scalar} (hv : v.isIntegral) (style : Style) (depth : Nat)
    {rest : List Char} (h : EndsNumber rest) :
    scalar? (v.toJson.render style depth ++ rest) = some (.ok (v, rest)) := by
  cases v with
  | null => rfl
  | bool b => cases b <;> rfl
  | string s =>
    show scalar? ('"' :: (s.toList.flatMap escapeChar ++ ['"']) ++ rest) = _
    rw [List.cons_append, List.append_assoc, List.singleton_append, scalar?,
      stringBody_renderString]
    rfl
  | number n =>
    obtain ⟨c, text, hc, hfirst⟩ := Number.render_eq_cons hv
    have hread := numberAt_render hv h
    show scalar? (n.render ++ rest) = _
    rw [hc, List.cons_append] at hread ⊢
    rw [scalar?_of_number _ hfirst, hread]
    rfl

end CodeMap.Json
