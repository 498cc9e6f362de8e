import CodeMap.Json.Fault

/-! # Readers of JSON text

A reader takes a value off the front of a text or refuses it. Every reader consumes something,
which is what lets the readers of arrays and objects recurse on the length of the text.
-/

namespace CodeMap.Json

/-- Blanks between the tokens of a text. -/
def isSpace (c : Char) : Bool := c == ' ' || c == '\n' || c == '\t' || c == '\r'

/-- The text from its first token on. -/
def skipBlanks (s : List Char) : List Char := s.dropWhile isSpace

theorem length_skipBlanks_le (s : List Char) : (skipBlanks s).length ≤ s.length :=
  (List.dropWhile_sublist _).length_le

theorem length_lt_of_skipBlanks {s t : List Char} {c : Char} (h : skipBlanks s = c :: t) :
    t.length < s.length := by
  have := length_skipBlanks_le s
  rw [h, List.length_cons] at this
  omega

/-- A reader with its law: what it accepts leaves a shorter text. -/
structure Reader (α : Type) where
  run : List Char → Except Fault (α × List Char)
  shorter {s : List Char} {a : α} {rest : List Char} :
    run s = .ok (a, rest) → rest.length < s.length

namespace Reader

variable {α β : Type}

/-- The reader with a function applied to its value. -/
def map (f : α → β) (r : Reader α) : Reader β where
  run s := match r.run s with
    | .ok (a, rest) => .ok (f a, rest)
    | .error fault => .error fault
  shorter {s b rest} h := by
    split at h
    · next hr =>
      obtain ⟨-, rfl⟩ := Prod.mk.inj (Except.ok.inj h)
      exact r.shorter hr
    · cases h

@[simp] theorem run_map (f : α → β) (r : Reader α) (s : List Char) :
    (r.map f).run s = match r.run s with
      | .ok (a, rest) => .ok (f a, rest)
      | .error fault => .error fault := rfl

end Reader

/-- The rest of a text behind the letters of a word. -/
def keyword : List Char → List Char → Except Fault (List Char)
  | [], s => .ok s
  | _ :: _, [] => .error (.here .endInValue [])
  | w :: word, c :: rest =>
    if c = w then keyword word rest else .error (.next .expectedIdent (c :: rest))

theorem length_keyword_le {word s rest : List Char} (h : keyword word s = .ok rest) :
    rest.length ≤ s.length := by
  induction word generalizing s with
  | nil => exact (Except.ok.inj h) ▸ Nat.le_refl _
  | cons w word ih =>
    cases s with
    | nil => cases h
    | cons c s =>
      unfold keyword at h
      split at h
      · exact Nat.le_succ_of_le (ih h)
      · cases h

end CodeMap.Json
