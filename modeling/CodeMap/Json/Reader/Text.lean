import CodeMap.Json.Reader.Basic
import CodeMap.Text.Numbers

/-! # Reading strings

The text between double quotes, with its escapes. An escape by number gives one unit of sixteen
bits; a character past U+FFFF takes two of them, and neither half may stand alone.
-/

namespace CodeMap.Json

/-- The fault of a text that does not begin with four hexadecimal digits: four bytes are taken
off it first, so it may also end too early. -/
def hexFault (s : List Char) : Fault :=
  let n := byteCount s
  if n < 4 then ⟨.endInString, .bytesLeft 0⟩ else ⟨.invalidEscape, .bytesLeft (n - 4)⟩

/-- A unit of sixteen bits from four hexadecimal digits. -/
def hexUnit (s : List Char) : Except Fault (Nat × List Char) :=
  match s with
  | a :: b :: c :: d :: rest =>
    match Text.hexDigit? a, Text.hexDigit? b, Text.hexDigit? c, Text.hexDigit? d with
    | some a, some b, some c, some d => .ok (((a * 16 + b) * 16 + c) * 16 + d, rest)
    | _, _, _, _ => .error (hexFault s)
  | _ => .error (hexFault s)

theorem hexUnit_shorter {s rest : List Char} {n : Nat} (h : hexUnit s = .ok (n, rest)) :
    rest.length < s.length := by
  unfold hexUnit at h
  split at h
  · split at h
    · obtain ⟨-, rfl⟩ := Prod.mk.inj (Except.ok.inj h)
      simp only [List.length_cons]
      omega
    · cases h
  · cases h

/-- The second half of a character past U+FFFF, behind its first half. -/
def secondUnit (first : Nat) (s : List Char) : Except Fault (Char × List Char) :=
  match s with
  | [] => .error (.here .endInString [])
  | '\\' :: [] => .error (.here .endInString [])
  | '\\' :: 'u' :: rest =>
    match hexUnit rest with
    | .error fault => .error fault
    | .ok (second, rest) =>
      if 0xDC00 ≤ second && second ≤ 0xDFFF then
        .ok (Char.ofNat (0x10000 + (first - 0xD800) * 0x400 + (second - 0xDC00)), rest)
      else .error (.here .loneSurrogate rest)
  | '\\' :: rest => .error (.next .unfinishedSurrogate rest)
  | rest => .error (.next .unfinishedSurrogate rest)

theorem secondUnit_shorter {first : Nat} {s rest : List Char} {c : Char}
    (h : secondUnit first s = .ok (c, rest)) : rest.length < s.length := by
  unfold secondUnit at h
  split at h
  · cases h
  · cases h
  · split at h
    · cases h
    · next hu =>
      split at h
      · obtain ⟨-, rfl⟩ := Prod.mk.inj (Except.ok.inj h)
        have := hexUnit_shorter hu
        simp only [List.length_cons]
        omega
      · cases h
  · cases h
  · cases h

/-- The character that an escape stands for, behind the letter `u`. -/
def numbered (s : List Char) : Except Fault (Char × List Char) :=
  match hexUnit s with
  | .error fault => .error fault
  | .ok (unit, rest) =>
    if 0xDC00 ≤ unit && unit ≤ 0xDFFF then .error (.here .loneSurrogate rest)
    else if 0xD800 ≤ unit && unit ≤ 0xDBFF then secondUnit unit rest
    else .ok (Char.ofNat unit, rest)

theorem numbered_shorter {s rest : List Char} {c : Char} (h : numbered s = .ok (c, rest)) :
    rest.length < s.length := by
  unfold numbered at h
  split at h
  · cases h
  · next hu =>
    have hlt := hexUnit_shorter hu
    split at h
    · cases h
    · split at h
      · exact Nat.lt_trans (secondUnit_shorter h) hlt
      · obtain ⟨-, rfl⟩ := Prod.mk.inj (Except.ok.inj h)
        exact hlt

/-- The character that a one-letter escape stands for. -/
def escapeLetter? : Char → Option Char
  | '"' => some '"'
  | '\\' => some '\\'
  | '/' => some '/'
  | 'b' => some '\x08'
  | 'f' => some '\x0c'
  | 'n' => some '\n'
  | 'r' => some '\r'
  | 't' => some '\t'
  | _ => none

/-- The character that an escape stands for, behind its backslash. -/
def escape (s : List Char) : Except Fault (Char × List Char) :=
  match s with
  | [] => .error (.here .endInString [])
  | c :: rest =>
    if c = 'u' then numbered rest
    else match escapeLetter? c with
      | some d => .ok (d, rest)
      | none => .error (.next .invalidEscape (c :: rest))

theorem escape_shorter {s rest : List Char} {c : Char} (h : escape s = .ok (c, rest)) :
    rest.length < s.length := by
  unfold escape at h
  split at h
  · cases h
  · split at h
    · exact Nat.lt_succ_of_lt (numbered_shorter h)
    · split at h
      · obtain ⟨-, rfl⟩ := Prod.mk.inj (Except.ok.inj h)
        exact Nat.lt_succ_self _
      · cases h

/-- The string behind an opening quote; `read` holds what is read of it, latest first. -/
def stringBody (read : List Char) (s : List Char) : Except Fault (String × List Char) :=
  match s with
  | [] => .error (.here .endInString [])
  | c :: rest =>
    if c = '"' then .ok (String.ofList read.reverse, rest)
    else if c = '\\' then
      match _he : escape rest with
      | .error fault => .error fault
      | .ok (d, rest') => stringBody (d :: read) rest'
    else if c.toNat < 0x20 then .error (.next .controlCharacter s)
    else stringBody (c :: read) rest
termination_by s.length
decreasing_by
  · exact Nat.lt_succ_of_lt (escape_shorter _he)
  · exact Nat.lt_succ_self _

theorem stringBody_shorter {read s rest : List Char} {t : String}
    (h : stringBody read s = .ok (t, rest)) : rest.length < s.length := by
  fun_induction stringBody read s with
  | case1 => cases h
  | case2 =>
    obtain ⟨-, rfl⟩ := Prod.mk.inj (Except.ok.inj h)
    exact Nat.lt_succ_self _
  | case3 => cases h
  | case4 _ _ _ _ he _ ih =>
    exact Nat.lt_trans (ih h) (Nat.lt_succ_of_lt (escape_shorter he))
  | case5 => cases h
  | case6 _ _ _ _ _ _ ih => exact Nat.lt_succ_of_lt (ih h)

end CodeMap.Json
