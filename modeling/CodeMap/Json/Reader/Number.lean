import CodeMap.Json.Reader.Basic

/-! # Reading numbers

The digits of a number are gathered into a significand of at most 64 bits. Digits before the point
that do not fit any more only count as places, digits behind the point that do not fit are left
out. A number without a point, without an exponent and without places left over is an integer if
it fits 64 bits; any other is the significand scaled by a power of ten.
-/

namespace CodeMap.Json

/-- The greatest significand. -/
def greatestSignificand : Nat := 18446744073709551615

/-- The greatest exponent that is read; a longer one has gone out of every range. -/
def greatestPower : Nat := 2147483647

/-- The number with one digit more. -/
def withDigit (n : Nat) (c : Char) : Nat := n * 10 + (c.toNat - 48)

/-- The significand of digits before the point, and the number of places that did not fit. -/
def gatherWhole : Nat → Nat → List Char → Nat × Nat
  | n, places, [] => (n, places)
  | n, places, c :: rest =>
    if places = 0 && withDigit n c ≤ greatestSignificand then gatherWhole (withDigit n c) 0 rest
    else gatherWhole n (places + 1) rest

/-- The significand with digits behind the point, and the number of those that fitted. -/
def gatherFraction : Nat → Nat → List Char → Nat × Nat
  | n, places, [] => (n, places)
  | n, places, c :: rest =>
    if withDigit n c ≤ greatestSignificand then gatherFraction (withDigit n c) (places + 1) rest
    else (n, places)

/-- The value of the digits of an exponent, or the digits behind the one that is too many. -/
def gatherPower : Nat → List Char → Except (List Char) Nat
  | n, [] => .ok n
  | n, c :: rest =>
    if withDigit n c ≤ greatestPower then gatherPower (withDigit n c) rest else .error rest

/-- The digits at the front of a text, and the text behind them. -/
def takeDigits (s : List Char) : List Char × List Char :=
  (s.takeWhile Char.isDigit, s.dropWhile Char.isDigit)

theorem length_takeDigits_le (s : List Char) : (takeDigits s).2.length ≤ s.length :=
  (List.dropWhile_sublist _).length_le

/-- The digits of a fraction; none if the text begins with no point. -/
def fraction (s : List Char) : Except Fault (List Char × List Char) :=
  match s with
  | '.' :: rest =>
    match takeDigits rest with
    | ([], []) => .error (.next .endInValue [])
    | ([], after) => .error (.next .invalidNumber after)
    | (digits, after) => .ok (digits, after)
  | s => .ok ([], s)

theorem fraction_length_le {s digits rest : List Char} (h : fraction s = .ok (digits, rest)) :
    rest.length ≤ s.length := by
  unfold fraction at h
  split at h
  · next t =>
    have hle := length_takeDigits_le t
    split at h
    · cases h
    · cases h
    · next hd =>
      obtain ⟨-, rfl⟩ := Prod.mk.inj (Except.ok.inj h)
      rw [hd] at hle
      exact Nat.le_succ_of_le hle
  · exact (Prod.mk.inj (Except.ok.inj h)).2 ▸ Nat.le_refl _

/-- The exponent of a number. -/
inductive Power where
  | absent
  | ten (exponent : Int)
  /-- So far down that the number is zero, or any exponent of a zero. -/
  | vanishing
deriving DecidableEq, Repr

/-- The digits of an exponent. One that is too great refuses the number, unless that is zero or
the exponent is negative. -/
def powerDigits (zero negative : Bool) (s : List Char) : Except Fault (Power × List Char) :=
  match takeDigits s with
  | ([], []) => .error (.here .endInValue [])
  | ([], after) => .error (.next .invalidNumber after)
  | (digits, after) =>
    match gatherPower 0 digits with
    | .ok n => .ok (.ten (if negative then -(n : Int) else n), after)
    | .error unread =>
      if zero || negative then .ok (.vanishing, after)
      else .error (.here .numberOutOfRange (unread ++ after))

/-- The exponent behind a number's digits; it is absent if the text begins with no letter `e`. -/
def power (zero : Bool) (s : List Char) : Except Fault (Power × List Char) :=
  match s with
  | c :: rest =>
    if c = 'e' || c = 'E' then
      match rest with
      | '+' :: digits => powerDigits zero false digits
      | '-' :: digits => powerDigits zero true digits
      | digits => powerDigits zero false digits
    else .ok (.absent, c :: rest)
  | [] => .ok (.absent, [])

theorem powerDigits_length_le {zero negative : Bool} {s rest : List Char} {p : Power}
    (h : powerDigits zero negative s = .ok (p, rest)) : rest.length ≤ s.length := by
  have hle := length_takeDigits_le s
  unfold powerDigits at h
  split at h
  · cases h
  · cases h
  · next hd =>
    rw [hd] at hle
    split at h
    · obtain ⟨-, rfl⟩ := Prod.mk.inj (Except.ok.inj h)
      exact hle
    · split at h
      · obtain ⟨-, rfl⟩ := Prod.mk.inj (Except.ok.inj h)
        exact hle
      · cases h

theorem power_length_le {zero : Bool} {s rest : List Char} {p : Power}
    (h : power zero s = .ok (p, rest)) : rest.length ≤ s.length := by
  unfold power at h
  split at h
  · split at h
    · split at h
      · exact Nat.le_trans (powerDigits_length_le h) (by simp only [List.length_cons]; omega)
      · exact Nat.le_trans (powerDigits_length_le h) (by simp only [List.length_cons]; omega)
      · exact Nat.le_trans (powerDigits_length_le h) (by simp only [List.length_cons]; omega)
    · exact (Prod.mk.inj (Except.ok.inj h)).2 ▸ Nat.le_refl _
  · exact (Prod.mk.inj (Except.ok.inj h)).2 ▸ Nat.le_refl _

/-- The number of an integer's digits: zero with a sign and what does not fit 64 bits are no
integers. -/
def Number.ofInteger? (negative : Bool) (n : Nat) : Option Number :=
  if negative then
    if n = 0 then none
    else if h : n - 1 < 9223372036854775808 then some (.negative ⟨n - 1, h⟩) else none
  else if n ≤ greatestSignificand then some (.natural (UInt64.ofNat n)) else none

/-- A significand scaled by a power of ten, if that is in range. -/
def Number.scaled? (negative : Bool) (n : Nat) (exponent : Int) : Option Number :=
  ((Binary64.ofNat n).bind (Binary64.scaleByTen · exponent)).map fun m => .real ⟨negative, m⟩

/-- The number of gathered digits. -/
def Number.ofParts? (negative : Bool) (whole fraction : List Char) (p : Power) : Option Number :=
  let (n, dropped) := gatherWhole 0 0 whole
  let (n, places) := gatherFraction n 0 fraction
  match p with
  | .vanishing => some (.real ⟨negative, .zero⟩)
  | .ten exponent => Number.scaled? negative n (dropped - places + exponent)
  | .absent =>
    if dropped = 0 && fraction = [] then
      (Number.ofInteger? negative n).or (Number.scaled? negative n 0)
    else Number.scaled? negative n (dropped - places)

/-- The significand is zero. -/
def isZero (whole fraction : List Char) : Bool :=
  (gatherFraction (gatherWhole 0 0 whole).1 0 fraction).1 = 0

/-- A number from the digits before its point and the text behind them. -/
def numberFrom (negative : Bool) (whole s : List Char) : Except Fault (Number × List Char) :=
  match fraction s with
  | .error fault => .error fault
  | .ok (digits, s) =>
    match power (isZero whole digits) s with
    | .error fault => .error fault
    | .ok (p, s) =>
      match Number.ofParts? negative whole digits p with
      | some n => .ok (n, s)
      | none => .error (.here .numberOutOfRange s)

theorem numberFrom_length_le {negative : Bool} {whole s rest : List Char} {n : Number}
    (h : numberFrom negative whole s = .ok (n, rest)) : rest.length ≤ s.length := by
  unfold numberFrom at h
  split at h
  · cases h
  · next hf =>
    split at h
    · cases h
    · next hp =>
      split at h
      · obtain ⟨-, rfl⟩ := Prod.mk.inj (Except.ok.inj h)
        exact Nat.le_trans (power_length_le hp) (fraction_length_le hf)
      · cases h

/-- A number without its sign. A zero before the point stands alone. -/
def unsignedNumber (negative : Bool) (s : List Char) : Except Fault (Number × List Char) :=
  match takeDigits s with
  | ([], []) => .error (.here .endInValue [])
  | ([], after) => .error (.next .invalidNumber after)
  | ('0' :: second :: more, after) => .error (.next .invalidNumber (second :: more ++ after))
  | (digits, after) => numberFrom negative digits after

theorem length_add_takeDigits (s : List Char) :
    (takeDigits s).1.length + (takeDigits s).2.length = s.length := by
  rw [takeDigits, ← List.length_append, List.takeWhile_append_dropWhile]

theorem unsignedNumber_shorter {negative : Bool} {s rest : List Char} {n : Number}
    (h : unsignedNumber negative s = .ok (n, rest)) : rest.length < s.length := by
  have hlen := length_add_takeDigits s
  unfold unsignedNumber at h
  split at h
  · cases h
  · cases h
  · cases h
  · next digits after _ hempty _ hd =>
    rw [hd] at hlen
    have hle := numberFrom_length_le h
    have hpos : digits.length ≠ 0 := fun h0 => hempty (List.length_eq_zero_iff.1 h0)
    simp only at hlen
    omega

/-- A number at the front of a text. -/
def numberAt (s : List Char) : Except Fault (Number × List Char) :=
  match s with
  | '-' :: rest => unsignedNumber true rest
  | s => unsignedNumber false s

theorem numberAt_shorter {s rest : List Char} {n : Number} (h : numberAt s = .ok (n, rest)) :
    rest.length < s.length := by
  unfold numberAt at h
  split at h
  · exact Nat.lt_succ_of_lt (unsignedNumber_shorter h)
  · exact unsignedNumber_shorter h

end CodeMap.Json
