import CodeMap.Json.Reader.Scalar

/-! # Reading arrays and objects

An array or an object is read turn by turn: a turn finds the closing bracket or the place where
the next element or member begins. The reader of an array collects its elements; the reader of
an object hands every key to `member`, which answers with the reader of the value.
-/

namespace CodeMap.Json

variable {α σ : Type}

/-- What comes next inside brackets. -/
inductive Turn where
  /-- The closing bracket stood before this rest. -/
  | close (rest : List Char)
  /-- An element begins here, or a key behind its opening quote. -/
  | next (s : List Char)
deriving DecidableEq, Repr

/-- The rest of a text after a turn. -/
def Turn.rest : Turn → List Char
  | .close rest => rest
  | .next s => s

/-- The next turn inside an array. -/
def itemTurn (first : Bool) (s : List Char) : Except Fault Turn :=
  match skipBlanks s with
  | [] => .error (.next .endInList [])
  | ']' :: rest => .ok (.close rest)
  | c :: rest =>
    if first then .ok (.next (c :: rest))
    else if c = ',' then
      match skipBlanks rest with
      | [] => .error (.next .endInValue [])
      | ']' :: more => .error (.next .trailingComma (']' :: more))
      | t => .ok (.next t)
    else .error (.next .expectedListCommaOrEnd (c :: rest))

/-- The key behind a comma or the opening bracket, blanks skipped. -/
def keyTurn (s : List Char) : Except Fault Turn :=
  match s with
  | '"' :: rest => .ok (.next rest)
  | s => .error (.next .keyMustBeString s)

/-- The next turn inside an object. -/
def memberTurn (first : Bool) (s : List Char) : Except Fault Turn :=
  match skipBlanks s with
  | [] => .error (.next .endInObject [])
  | '\x7d' :: rest => .ok (.close rest)
  | c :: rest =>
    if first then keyTurn (c :: rest)
    else if c = ',' then
      match skipBlanks rest with
      | [] => .error (.next .endInValue [])
      | '\x7d' :: more => .error (.next .trailingComma ('\x7d' :: more))
      | t => keyTurn t
    else .error (.next .expectedObjectCommaOrEnd (c :: rest))

/-- The text behind the colon of a member. -/
def colon (s : List Char) : Except Fault (List Char) :=
  match skipBlanks s with
  | [] => .error (.next .endInObject [])
  | ':' :: rest => .ok rest
  | t => .error (.next .expectedColon t)

theorem itemTurn_length_le {first : Bool} {s : List Char} {turn : Turn}
    (h : itemTurn first s = .ok turn) : turn.rest.length ≤ s.length := by
  have hle := length_skipBlanks_le s
  unfold itemTurn at h
  split at h
  · cases h
  · next hs =>
    cases h
    exact Nat.le_of_lt (length_lt_of_skipBlanks hs)
  · next c rest _ hs =>
    split at h
    · cases h
      rw [hs] at hle
      exact hle
    · split at h
      · split at h
        · cases h
        · cases h
        · cases h
          exact Nat.le_trans (length_skipBlanks_le rest)
            (Nat.le_of_lt (length_lt_of_skipBlanks hs))
      · cases h

theorem itemTurn_close_shorter {first : Bool} {s rest : List Char}
    (h : itemTurn first s = .ok (.close rest)) : rest.length < s.length := by
  unfold itemTurn at h
  split at h
  · cases h
  · next hs =>
    cases h
    exact length_lt_of_skipBlanks hs
  · split at h
    · cases h
    · split at h
      · split at h <;> cases h
      · cases h

theorem keyTurn_next {s : List Char} {turn : Turn} (h : keyTurn s = .ok turn) :
    ∃ rest, turn = .next rest ∧ s = '"' :: rest := by
  unfold keyTurn at h
  split at h
  · exact ⟨_, (Except.ok.inj h).symm, rfl⟩
  · cases h

theorem memberTurn_shorter {first : Bool} {s : List Char} {turn : Turn}
    (h : memberTurn first s = .ok turn) : turn.rest.length < s.length := by
  have hle := length_skipBlanks_le s
  unfold memberTurn at h
  split at h
  · cases h
  · next hs =>
    cases h
    exact length_lt_of_skipBlanks hs
  · next c rest _ hs =>
    have hlt := length_lt_of_skipBlanks hs
    split at h
    · obtain ⟨more, rfl, hc⟩ := keyTurn_next h
      rw [hs, hc] at hle
      exact hle
    · split at h
      · split at h
        · cases h
        · cases h
        · obtain ⟨more, rfl, hc⟩ := keyTurn_next h
          have hle' := length_skipBlanks_le rest
          rw [hc] at hle'
          simp only [List.length_cons, Turn.rest] at *
          omega
      · cases h

theorem colon_shorter {s rest : List Char} (h : colon s = .ok rest) :
    rest.length < s.length := by
  unfold colon at h
  split at h
  · cases h
  · next hs =>
    cases h
    exact length_lt_of_skipBlanks hs
  · cases h

/-! ## Arrays -/

/-- The elements up to the closing bracket; `read` holds those before, latest first. -/
def items (item : Reader α) (first : Bool) (read : List α) (s : List Char) :
    Except Fault (List α × List Char) :=
  match _ht : itemTurn first s with
  | .error fault => .error fault
  | .ok (.close rest) => .ok (read.reverse, rest)
  | .ok (.next t) =>
    match _hr : item.run t with
    | .error fault => .error fault
    | .ok (a, rest) => items item false (a :: read) rest
termination_by s.length
decreasing_by exact Nat.lt_of_lt_of_le (item.shorter _hr) (itemTurn_length_le _ht)

theorem items_shorter {item : Reader α} {first : Bool} {read as : List α} {s rest : List Char}
    (h : items item first read s = .ok (as, rest)) : rest.length < s.length := by
  fun_induction items item first read s with
  | case1 => cases h
  | case2 first read s t ht =>
    obtain ⟨-, rfl⟩ := Prod.mk.inj (Except.ok.inj h)
    exact itemTurn_close_shorter ht
  | case3 => cases h
  | case4 first read s t ht a rest' hr ih =>
    exact Nat.lt_trans (ih h)
      (Nat.lt_of_lt_of_le (item.shorter hr) (itemTurn_length_le ht))

/-! ## Objects -/

/-- The members up to the closing bracket, folded into a state. -/
def members (member : σ → String → Except Cause (Reader σ)) (first : Bool) (state : σ)
    (s : List Char) : Except Fault (σ × List Char) :=
  match _ht : memberTurn first s with
  | .error fault => .error fault
  | .ok (.close rest) => .ok (state, rest)
  | .ok (.next t) =>
    match _hk : stringBody [] t with
    | .error fault => .error fault
    | .ok (key, u) =>
      match member state key with
      | .error cause => .error (.whole cause u)
      | .ok value =>
        match _hc : colon u with
        | .error fault => .error fault
        | .ok v =>
          match _hv : value.run v with
          | .error fault => .error fault
          | .ok (state, rest) => members member false state rest
termination_by s.length
decreasing_by
  have h1 := memberTurn_shorter _ht
  have h2 := stringBody_shorter _hk
  have h3 := colon_shorter _hc
  have h4 := value.shorter _hv
  simp only [Turn.rest] at h1
  omega

theorem members_shorter {member : σ → String → Except Cause (Reader σ)} {first : Bool}
    {state final : σ} {s rest : List Char}
    (h : members member first state s = .ok (final, rest)) : rest.length < s.length := by
  fun_induction members member first state s with
  | case1 => cases h
  | case2 first state s t ht =>
    obtain ⟨-, rfl⟩ := Prod.mk.inj (Except.ok.inj h)
    exact memberTurn_shorter ht
  | case3 => cases h
  | case4 => cases h
  | case5 => cases h
  | case6 => cases h
  | case7 first state s t ht key u hk value hm v hc state' rest' hv ih =>
    have h1 := memberTurn_shorter ht
    have h2 := stringBody_shorter hk
    have h3 := colon_shorter hc
    have h4 := value.shorter hv
    have h5 := ih h
    simp only [Turn.rest] at h1
    omega

/-! ## Faults of whole brackets -/

/-- A fault of the brackets as a whole lies where their reader stops: behind blanks, and behind
the closing bracket if it comes next. -/
def Fault.settle (close : Char) (f : Fault) : Fault :=
  match f.place with
  | .bytesLeft _ => f
  | .enclosing rest =>
    match skipBlanks rest with
    | [] => .here f.cause []
    | c :: t => .here f.cause (if c = close then t else c :: t)

/-- The answer of the inside of brackets, with its fault placed. -/
def settled (close : Char) (answer : Except Fault α) : Except Fault α :=
  match answer with
  | .ok a => .ok a
  | .error fault => .error (fault.settle close)

theorem settled_eq_ok {close : Char} {answer : Except Fault α} {a : α} :
    settled close answer = .ok a ↔ answer = .ok a := by
  cases answer <;> simp [settled]

/-! ## Values -/

/-- The reader of what stands inside one more pair of brackets, if the levels allow it. -/
def innerAt (levels : Nat) (inner : Nat → β) : Option β :=
  match levels with
  | 0 => none
  | n + 1 => some (inner n)

/-- Reads the inside of an array whose bracket has been seen. -/
def runItems (item : Option (Reader α)) (s rest : List Char) : Except Fault (List α × List Char) :=
  match item with
  | none => .error (.next .tooDeep s)
  | some item => settled ']' (items item true [] rest)

/-- Reads the inside of an object whose bracket has been seen. -/
def runMembers (member : Option (σ → String → Except Cause (Reader σ))) (start : σ)
    (s rest : List Char) : Except Fault (σ × List Char) :=
  match member with
  | none => .error (.next .tooDeep s)
  | some member => settled '\x7d' (members member true start rest)

theorem runItems_shorter {item : Option (Reader α)} {s rest rest' : List Char} {as : List α}
    (h : runItems item s rest = .ok (as, rest')) : rest'.length < rest.length := by
  cases item with
  | none => cases h
  | some item => exact items_shorter (settled_eq_ok.1 h)

theorem runMembers_shorter {member : Option (σ → String → Except Cause (Reader σ))}
    {start final : σ} {s rest rest' : List Char}
    (h : runMembers member start s rest = .ok (final, rest')) : rest'.length < rest.length := by
  cases member with
  | none => cases h
  | some member => exact members_shorter (settled_eq_ok.1 h)

/-- Reads any value; `inner` reads the values inside its brackets. -/
def runValue (inner : Option (Reader Json)) (s : List Char) : Except Fault (Json × List Char) :=
  match skipBlanks s with
  | [] => .error (.next .endInValue [])
  | '[' :: rest => (runItems inner ('[' :: rest) rest).map fun p => (.array p.1, p.2)
  | '\x7b' :: rest =>
    let member := inner.map fun r (read : List (String × Json)) key =>
      .ok (r.map fun v => (key, v) :: read)
    (runMembers member [] ('\x7b' :: rest) rest).map fun p => (.object p.1.reverse, p.2)
  | t =>
    match scalar? t with
    | none => .error (.next .expectedValue t)
    | some (.error fault) => .error fault
    | some (.ok (v, rest)) => .ok (v.toJson, rest)

theorem runValue_shorter {inner : Option (Reader Json)} {s rest : List Char} {v : Json}
    (h : runValue inner s = .ok (v, rest)) : rest.length < s.length := by
  have hle := length_skipBlanks_le s
  unfold runValue at h
  split at h
  · cases h
  · next hs =>
    obtain ⟨⟨_, _⟩, hi, hv⟩ := map_ok_iff.1 h
    obtain ⟨-, rfl⟩ := Prod.mk.inj hv
    exact Nat.lt_trans (runItems_shorter hi) (length_lt_of_skipBlanks hs)
  · next hs =>
    obtain ⟨⟨_, _⟩, hi, hv⟩ := map_ok_iff.1 h
    obtain ⟨-, rfl⟩ := Prod.mk.inj hv
    exact Nat.lt_trans (runMembers_shorter hi) (length_lt_of_skipBlanks hs)
  · split at h
    · cases h
    · cases h
    · next hv =>
      obtain ⟨-, rfl⟩ := Prod.mk.inj (Except.ok.inj h)
      exact Nat.lt_of_lt_of_le (scalar?_shorter hv) hle

namespace Reader

/-- Any value with brackets to at most so many levels. -/
def value : (levels : Nat) → Reader Json
  | 0 => ⟨runValue none, runValue_shorter⟩
  | n + 1 => ⟨runValue (some (value n)), runValue_shorter⟩

/-- An array of values of one kind. -/
def list (levels : Nat) (item : Nat → Reader α) : Reader (List α) where
  run s := match skipBlanks s with
    | '[' :: rest => runItems (innerAt levels item) ('[' :: rest) rest
    | t => .error (mismatch .sequence t)
  shorter {s as rest} h := by
    split at h
    · next hs => exact Nat.lt_trans (runItems_shorter h) (length_lt_of_skipBlanks hs)
    · cases h

/-- The levels of brackets that a text may have. -/
def maxLevels : Nat := 127

/-- Reads a whole text; only blanks may follow the value. -/
def readAll (r : Reader α) (text : String) : Except Refusal α :=
  let s := text.toList
  match r.run s with
  | .error fault => .error (fault.refusal s)
  | .ok (a, rest) =>
    match skipBlanks rest with
    | [] => .ok a
    | t => .error ((Fault.next .trailingCharacters t).refusal s)

end Reader

/-- The value of a text. -/
def read (text : String) : Except Refusal Json := (Reader.value Reader.maxLevels).readAll text

end CodeMap.Json
