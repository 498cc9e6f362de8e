import CodeMap.Json.Reader.Bracket

/-! # Skipping values

The value of a key that a record does not know is skipped. Its brackets must match and its tokens
must be well formed, but nothing is made of them: a number may be out of range, an escape may name
half a character, and brackets may be nested to any depth. The open brackets are kept on a stack.
-/

namespace CodeMap.Json

/-- Skips the digits of an exponent and its sign. -/
def skipPower (s : List Char) : Except Fault (List Char) :=
  let t := match s with
    | '+' :: rest => rest
    | '-' :: rest => rest
    | s => s
  match takeDigits t with
  | ([], after) => .error (.next .invalidNumber after)
  | (_, after) => .ok after

/-- Skips an exponent, if there is one. -/
def skipExponent (s : List Char) : Except Fault (List Char) :=
  match s with
  | 'e' :: rest => skipPower rest
  | 'E' :: rest => skipPower rest
  | s => .ok s

/-- Skips what follows the digits before the point. -/
def skipFraction (s : List Char) : Except Fault (List Char) :=
  match s with
  | '.' :: rest =>
    match takeDigits rest with
    | ([], after) => .error (.next .invalidNumber after)
    | (_, after) => skipExponent after
  | s => skipExponent s

/-- Skips a number without its sign. -/
def skipUnsigned (s : List Char) : Except Fault (List Char) :=
  match takeDigits s with
  | ([], after) => .error (.next .invalidNumber after)
  | ('0' :: second :: more, after) => .error (.next .invalidNumber (second :: more ++ after))
  | (_, after) => skipFraction after

/-- Skips a number. -/
def skipNumber (s : List Char) : Except Fault (List Char) :=
  match s with
  | '-' :: rest => skipUnsigned rest
  | s => skipUnsigned s

/-- Skips a string behind its opening quote. -/
def skipString (s : List Char) : Except Fault (List Char) :=
  match s with
  | [] => .error (.here .endInString [])
  | '"' :: rest => .ok rest
  | '\\' :: [] => .error (.here .endInString [])
  | '\\' :: 'u' :: rest =>
    match _hu : hexUnit rest with
    | .error fault => .error fault
    | .ok (_, rest') => skipString rest'
  | '\\' :: c :: rest =>
    match escapeLetter? c with
    | none => .error (.next .invalidEscape (c :: rest))
    | some _ => skipString rest
  | c :: rest => if c.toNat < 0x20 then .error (.here .controlCharacter s) else skipString rest
termination_by s.length
decreasing_by
  · have := hexUnit_shorter _hu
    simp only [List.length_cons]
    omega
  · simp only [List.length_cons]
    omega
  · exact Nat.lt_succ_self _

theorem skipPower_length_le {s rest : List Char} (h : skipPower s = .ok rest) :
    rest.length ≤ s.length := by
  have key : ∀ t : List Char, t.length ≤ s.length →
      (match takeDigits t with
        | ([], after) => Except.error (Fault.next .invalidNumber after)
        | (_, after) => .ok after) = .ok rest → rest.length ≤ s.length := by
    intro t ht hr
    have hle := length_takeDigits_le t
    split at hr
    · cases hr
    · next hd =>
      cases hr
      rw [hd] at hle
      exact Nat.le_trans hle ht
  unfold skipPower at h
  refine key _ ?_ h
  split
  · exact Nat.le_succ _
  · exact Nat.le_succ _
  · exact Nat.le_refl _

theorem skipExponent_length_le {s rest : List Char} (h : skipExponent s = .ok rest) :
    rest.length ≤ s.length := by
  unfold skipExponent at h
  split at h
  · exact Nat.le_succ_of_le (skipPower_length_le h)
  · exact Nat.le_succ_of_le (skipPower_length_le h)
  · exact (Except.ok.inj h) ▸ Nat.le_refl _

theorem skipFraction_length_le {s rest : List Char} (h : skipFraction s = .ok rest) :
    rest.length ≤ s.length := by
  unfold skipFraction at h
  split at h
  · next t =>
    have hle := length_takeDigits_le t
    split at h
    · cases h
    · next hd =>
      rw [hd] at hle
      exact Nat.le_succ_of_le (Nat.le_trans (skipExponent_length_le h) hle)
  · exact skipExponent_length_le h

theorem skipUnsigned_shorter {s rest : List Char} (h : skipUnsigned s = .ok rest) :
    rest.length < s.length := by
  have hlen := length_add_takeDigits s
  unfold skipUnsigned at h
  split at h
  · cases h
  · cases h
  · next digits after hempty _ hd =>
    rw [hd] at hlen
    have hle := skipFraction_length_le h
    have hpos : digits.length ≠ 0 := fun h0 => hempty (List.length_eq_zero_iff.1 h0)
    simp only at hlen
    omega

theorem skipNumber_shorter {s rest : List Char} (h : skipNumber s = .ok rest) :
    rest.length < s.length := by
  unfold skipNumber at h
  split at h
  · exact Nat.lt_succ_of_lt (skipUnsigned_shorter h)
  · exact skipUnsigned_shorter h

theorem skipString_shorter {s rest : List Char} (h : skipString s = .ok rest) :
    rest.length < s.length := by
  fun_induction skipString s with
  | case1 => cases h
  | case2 => exact (Except.ok.inj h) ▸ Nat.lt_succ_self _
  | case3 => cases h
  | case4 => cases h
  | case5 _ _ _ hu ih =>
    have := ih h
    have := hexUnit_shorter hu
    simp only [List.length_cons]
    omega
  | case6 => cases h
  | case7 _ _ _ _ _ ih =>
    have := ih h
    simp only [List.length_cons]
    omega
  | case8 => cases h
  | case9 _ _ _ _ _ _ _ ih => exact Nat.lt_succ_of_lt (ih h)

/-! ## Brackets -/

/-- An open bracket. -/
inductive Bracket where
  | square
  | curly
deriving DecidableEq, Repr

namespace Bracket

/-- The character that closes it. -/
def closing : Bracket → Char
  | square => ']'
  | curly => '\x7d'

end Bracket

/-- What a skipped text goes on with. -/
inductive Awaited where
  | value
  | firstItem
  | firstKey
  | key
  | commaOrEnd
deriving DecidableEq, Repr

/-- The state behind a value: the open brackets, innermost first, and what comes next. Nothing
comes next when no bracket is open. -/
structure Skipped where
  brackets : List Bracket
  awaited : Awaited
  rest : List Char
deriving DecidableEq, Repr

/-- Skips the beginning of a value, blanks skipped before it. -/
def skipValueToken (brackets : List Bracket) (s : List Char) : Except Fault Skipped :=
  match s with
  | [] => .error (.next .endInValue [])
  | '[' :: rest => .ok ⟨.square :: brackets, .firstItem, rest⟩
  | '\x7b' :: rest => .ok ⟨.curly :: brackets, .firstKey, rest⟩
  | 'n' :: rest => (keyword ['u', 'l', 'l'] rest).map (⟨brackets, .commaOrEnd, ·⟩)
  | 't' :: rest => (keyword ['r', 'u', 'e'] rest).map (⟨brackets, .commaOrEnd, ·⟩)
  | 'f' :: rest => (keyword ['a', 'l', 's', 'e'] rest).map (⟨brackets, .commaOrEnd, ·⟩)
  | '"' :: rest => (skipString rest).map (⟨brackets, .commaOrEnd, ·⟩)
  | c :: rest =>
    if c = '-' || c.isDigit then (skipNumber (c :: rest)).map (⟨brackets, .commaOrEnd, ·⟩)
    else .error (.next .expectedValue (c :: rest))

/-- Skips a key and its colon, blanks skipped before it. -/
def skipKeyToken (brackets : List Bracket) (s : List Char) : Except Fault Skipped :=
  match s with
  | [] => .error (.next .endInObject [])
  | '"' :: rest =>
    match skipString rest with
    | .error fault => .error fault
    | .ok rest => (colon rest).map (⟨brackets, .value, ·⟩)
  | s => .error (.next .keyMustBeString s)

/-- Skips a comma or a closing bracket inside the innermost bracket. -/
def skipSeparator (bracket : Bracket) (outer : List Bracket) (s : List Char) :
    Except Fault Skipped :=
  match s, bracket with
  | [], .square => .error (.next .endInList [])
  | [], .curly => .error (.next .endInObject [])
  | c :: rest, _ =>
    if c = bracket.closing then .ok ⟨outer, .commaOrEnd, rest⟩
    else if c = ',' then
      .ok ⟨bracket :: outer, match bracket with
        | .square => .value
        | .curly => .key, rest⟩
    else .error (.next (match bracket with
      | .square => .expectedListCommaOrEnd
      | .curly => .expectedObjectCommaOrEnd) s)

/-- Skips one token. -/
def skipToken (awaited : Awaited) (brackets : List Bracket) (s : List Char) :
    Except Fault Skipped :=
  match awaited, brackets, s with
  | .firstItem, _, [] => .error (.next .endInList [])
  | .firstItem, _ :: outer, ']' :: rest => .ok ⟨outer, .commaOrEnd, rest⟩
  | .firstKey, _ :: outer, '\x7d' :: rest => .ok ⟨outer, .commaOrEnd, rest⟩
  | .firstKey, _, s => skipKeyToken brackets s
  | .key, _, s => skipKeyToken brackets s
  | .commaOrEnd, bracket :: outer, s => skipSeparator bracket outer s
  | _, _, s => skipValueToken brackets s

theorem skipValueToken_shorter {brackets : List Bracket} {s : List Char} {k : Skipped}
    (h : skipValueToken brackets s = .ok k) : k.rest.length < s.length := by
  unfold skipValueToken at h
  split at h
  · cases h
  · cases h
    exact Nat.lt_succ_self _
  · cases h
    exact Nat.lt_succ_self _
  · obtain ⟨_, hk, rfl⟩ := map_ok_iff.1 h
    exact Nat.lt_succ_of_le (length_keyword_le hk)
  · obtain ⟨_, hk, rfl⟩ := map_ok_iff.1 h
    exact Nat.lt_succ_of_le (length_keyword_le hk)
  · obtain ⟨_, hk, rfl⟩ := map_ok_iff.1 h
    exact Nat.lt_succ_of_le (length_keyword_le hk)
  · obtain ⟨_, hs, rfl⟩ := map_ok_iff.1 h
    exact Nat.lt_succ_of_lt (skipString_shorter hs)
  · split at h
    · obtain ⟨_, hn, rfl⟩ := map_ok_iff.1 h
      exact skipNumber_shorter hn
    · cases h

theorem skipKeyToken_shorter {brackets : List Bracket} {s : List Char} {k : Skipped}
    (h : skipKeyToken brackets s = .ok k) : k.rest.length < s.length := by
  unfold skipKeyToken at h
  split at h
  · cases h
  · split at h
    · cases h
    · next hs =>
      obtain ⟨_, hc, rfl⟩ := map_ok_iff.1 h
      exact Nat.lt_succ_of_lt (Nat.lt_trans (colon_shorter hc) (skipString_shorter hs))
  · cases h

theorem skipSeparator_shorter {bracket : Bracket} {outer : List Bracket} {s : List Char}
    {k : Skipped} (h : skipSeparator bracket outer s = .ok k) : k.rest.length < s.length := by
  unfold skipSeparator at h
  split at h
  · cases h
  · cases h
  · split at h
    · cases h
      exact Nat.lt_succ_self _
    · split at h
      · cases h
        exact Nat.lt_succ_self _
      · cases h

theorem skipToken_shorter {awaited : Awaited} {brackets : List Bracket} {s : List Char}
    {k : Skipped} (h : skipToken awaited brackets s = .ok k) : k.rest.length < s.length := by
  unfold skipToken at h
  split at h
  · cases h
  · cases h
    exact Nat.lt_succ_self _
  · cases h
    exact Nat.lt_succ_self _
  · exact skipKeyToken_shorter h
  · exact skipKeyToken_shorter h
  · exact skipSeparator_shorter h
  · exact skipValueToken_shorter h

/-- Skips tokens until the brackets are closed again. -/
def skipFrom (awaited : Awaited) (brackets : List Bracket) (s : List Char) :
    Except Fault (List Char) :=
  match _h : skipToken awaited brackets (skipBlanks s) with
  | .error fault => .error fault
  | .ok ⟨[], .commaOrEnd, rest⟩ => .ok rest
  | .ok ⟨brackets, awaited, rest⟩ => skipFrom awaited brackets rest
termination_by s.length
decreasing_by exact Nat.lt_of_lt_of_le (skipToken_shorter _h) (length_skipBlanks_le s)

theorem skipFrom_shorter {awaited : Awaited} {brackets : List Bracket} {s rest : List Char}
    (h : skipFrom awaited brackets s = .ok rest) : rest.length < s.length := by
  fun_induction skipFrom awaited brackets s with
  | case1 => cases h
  | case2 _ _ s _ hk =>
    cases h
    exact Nat.lt_of_lt_of_le (skipToken_shorter hk) (length_skipBlanks_le s)
  | case3 _ _ s _ _ _ _ hk ih =>
    have := skipToken_shorter hk
    exact Nat.lt_trans (ih h) (Nat.lt_of_lt_of_le this (length_skipBlanks_le s))

/-- Skips a value and leaves a state as it is. -/
def Reader.skip {σ : Type} (state : σ) : Reader σ where
  run s := (skipFrom .value [] s).map (state, ·)
  shorter {s a rest} h := by
    obtain ⟨_, hs, hv⟩ := map_ok_iff.1 h
    obtain ⟨-, rfl⟩ := Prod.mk.inj hv
    exact skipFrom_shorter hs

end CodeMap.Json
