import CodeMap.Json.Reader.Skip

/-! # Records

A record is an object with known keys. It is read into a draft: a field's reader fills its part of
the draft, a known key that comes again is refused, and a key that the record does not know goes
to `other`. At the end the draft becomes the record, unless a part that must be there is missing.
Some records may also be written as an array of their fields in order.
-/

namespace CodeMap.Json

variable {σ α : Type}

/-- A field of a record with a draft in `σ`. Its reader may use so many levels of brackets. -/
structure Field (σ : Type) where
  key : String
  isSet : σ → Bool
  read : Nat → σ → Reader σ

/-- Whether a record may be written as an array. -/
inductive ArrayForm where
  | refused
  /-- Every field has its element. -/
  | full
  /-- The last fields may be left out. -/
  | initial
deriving DecidableEq, Repr

/-- How a record is read: `σ` is its draft. -/
structure Record (σ α : Type) where
  title : String
  start : σ
  fields : List (Field σ)
  other : Nat → σ → String → Reader σ
  arrays : ArrayForm
  finish : σ → Except Cause α

/-- The value of a part of a draft that must be there. -/
def required (key : String) : Option α → Except Cause α
  | some a => .ok a
  | none => .error (.missingField key)

namespace Record

/-- The kind of value that the record is. -/
def wanted (r : Record σ α) : Wanted := .record r.title

/-- The reader of the value of a key. -/
def member (r : Record σ α) (levels : Nat) (draft : σ) (key : String) :
    Except Cause (Reader σ) :=
  match r.fields.find? fun f => f.key == key with
  | some f => if f.isSet draft then .error (.duplicateField key) else .ok (f.read levels draft)
  | none => .ok (r.other levels draft key)

/-- The end of an array that has an element for every field. -/
def arrayEnd (s : List Char) : Except Fault (List Char) :=
  match skipBlanks s with
  | [] => .error (.next .endInList [])
  | ']' :: rest => .ok rest
  | ',' :: rest =>
    match skipBlanks rest with
    | ']' :: more => .error (.next .trailingComma (']' :: more))
    | t => .error (.next .trailingCharacters t)
  | t => .error (.next .trailingCharacters t)

theorem arrayEnd_shorter {s rest : List Char} (h : arrayEnd s = .ok rest) :
    rest.length < s.length := by
  unfold arrayEnd at h
  split at h
  · cases h
  · next hs =>
    cases h
    exact length_lt_of_skipBlanks hs
  · split at h <;> cases h
  · cases h

/-- Reads the elements of an array into a draft, field by field. -/
def elements (r : Record σ α) (levels : Nat) :
    List (Field σ) → Bool → σ → List Char → Except Fault (σ × List Char)
  | [], _, draft, s =>
    match arrayEnd s with
    | .ok rest => .ok (draft, rest)
    | .error fault => .error fault
  | f :: more, first, draft, s =>
    match itemTurn first s with
    | .error fault => .error fault
    | .ok (.close rest) =>
      if r.arrays = .initial then .ok (draft, rest)
      else
        let length := r.fields.length - (more.length + 1)
        .error (.here (.tooShort length r.wanted r.fields.length) rest)
    | .ok (.next t) =>
      match (f.read levels draft).run t with
      | .error fault => .error fault
      | .ok (draft, rest) => elements r levels more false draft rest

theorem elements_shorter {r : Record σ α} {levels : Nat} {fields : List (Field σ)}
    {first : Bool} {draft final : σ} {s rest : List Char}
    (h : elements r levels fields first draft s = .ok (final, rest)) :
    rest.length < s.length := by
  induction fields generalizing first draft s with
  | nil =>
    unfold elements at h
    split at h
    · next he =>
      obtain ⟨-, rfl⟩ := Prod.mk.inj (Except.ok.inj h)
      exact arrayEnd_shorter he
    · cases h
  | cons f more ih =>
    unfold elements at h
    split at h
    · cases h
    · next ht =>
      split at h
      · obtain ⟨-, rfl⟩ := Prod.mk.inj (Except.ok.inj h)
        exact itemTurn_close_shorter ht
      · cases h
    · next ht =>
      split at h
      · cases h
      · next hr =>
        have h1 := itemTurn_length_le ht
        have h2 := (f.read levels _).shorter hr
        have h3 := ih h
        simp only [Turn.rest] at h1
        omega

/-- Reads an array whose bracket has been seen into a draft. -/
def runElements (r : Record σ α) (levels : Nat) (s rest : List Char) :
    Except Fault (σ × List Char) :=
  match levels with
  | 0 => .error (.next .tooDeep s)
  | n + 1 => settled ']' (elements r n r.fields true r.start rest)

theorem runElements_shorter {r : Record σ α} {levels : Nat} {s rest rest' : List Char}
    {final : σ} (h : runElements r levels s rest = .ok (final, rest')) :
    rest'.length < rest.length := by
  cases levels with
  | zero => cases h
  | succ n => exact elements_shorter (settled_eq_ok.1 h)

/-- Reads the draft of a record. -/
def runDraft (r : Record σ α) (levels : Nat) (s : List Char) : Except Fault (σ × List Char) :=
  match skipBlanks s with
  | '\x7b' :: rest => runMembers (innerAt levels r.member) r.start ('\x7b' :: rest) rest
  | '[' :: rest =>
    if r.arrays = .refused then .error (mismatch r.wanted ('[' :: rest))
    else runElements r levels ('[' :: rest) rest
  | t => .error (mismatch r.wanted t)

theorem runDraft_shorter {r : Record σ α} {levels : Nat} {s rest : List Char} {final : σ}
    (h : runDraft r levels s = .ok (final, rest)) : rest.length < s.length := by
  unfold runDraft at h
  split at h
  · next hs => exact Nat.lt_trans (runMembers_shorter h) (length_lt_of_skipBlanks hs)
  · next hs =>
    split at h
    · cases h
    · exact Nat.lt_trans (runElements_shorter h) (length_lt_of_skipBlanks hs)
  · cases h

/-- The reader of a record. -/
def reader (r : Record σ α) (levels : Nat) : Reader α where
  run s := match runDraft r levels s with
    | .error fault => .error fault
    | .ok (draft, rest) =>
      match r.finish draft with
      | .ok a => .ok (a, rest)
      | .error cause => .error (.here cause rest)
  shorter {s a rest} h := by
    split at h
    · cases h
    · next hd =>
      split at h
      · exact (Prod.mk.inj (Except.ok.inj h)).2 ▸ runDraft_shorter hd
      · cases h

/-- The record that a text holds. -/
def read (r : Record σ α) (text : String) : Except Refusal α :=
  (r.reader Reader.maxLevels).readAll text

end Record

end CodeMap.Json
