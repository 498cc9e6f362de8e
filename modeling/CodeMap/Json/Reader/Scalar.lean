import CodeMap.Json.Reader.Number
import CodeMap.Json.Reader.Text

/-! # Reading scalars

The values without brackets, and the readers that want one of a certain kind. A reader that finds
another kind first reads it to its end, so a fault inside it comes before the complaint; before a
bracket it stops at once.
-/

namespace CodeMap.Json

variable {α : Type}

/-- The scalar at the front of a text, if the first character begins one. -/
def scalar? (s : List Char) : Option (Except Fault (Scalar × List Char)) :=
  match s with
  | 'n' :: rest => some ((keyword ['u', 'l', 'l'] rest).map (Scalar.null, ·))
  | 't' :: rest => some ((keyword ['r', 'u', 'e'] rest).map (Scalar.bool true, ·))
  | 'f' :: rest => some ((keyword ['a', 'l', 's', 'e'] rest).map (Scalar.bool false, ·))
  | '"' :: rest => some ((stringBody [] rest).map fun p => (Scalar.string p.1, p.2))
  | c :: rest =>
    if c = '-' || c.isDigit then
      some ((numberAt (c :: rest)).map fun p => (Scalar.number p.1, p.2))
    else none
  | [] => none

theorem map_ok_iff {ε β γ : Type} {f : β → γ} {e : Except ε β} {c : γ} :
    e.map f = .ok c ↔ ∃ b, e = .ok b ∧ f b = c := by
  cases e <;> simp [Except.map]

theorem scalar?_shorter {s rest : List Char} {v : Scalar}
    (h : scalar? s = some (.ok (v, rest))) : rest.length < s.length := by
  unfold scalar? at h
  split at h
  · obtain ⟨_, hk, hv⟩ := map_ok_iff.1 (Option.some.inj h)
    obtain ⟨-, rfl⟩ := Prod.mk.inj hv
    exact Nat.lt_succ_of_le (length_keyword_le hk)
  · obtain ⟨_, hk, hv⟩ := map_ok_iff.1 (Option.some.inj h)
    obtain ⟨-, rfl⟩ := Prod.mk.inj hv
    exact Nat.lt_succ_of_le (length_keyword_le hk)
  · obtain ⟨_, hk, hv⟩ := map_ok_iff.1 (Option.some.inj h)
    obtain ⟨-, rfl⟩ := Prod.mk.inj hv
    exact Nat.lt_succ_of_le (length_keyword_le hk)
  · obtain ⟨⟨_, _⟩, hb, hv⟩ := map_ok_iff.1 (Option.some.inj h)
    obtain ⟨-, rfl⟩ := Prod.mk.inj hv
    exact Nat.lt_succ_of_lt (stringBody_shorter hb)
  · split at h
    · obtain ⟨⟨_, _⟩, hn, hv⟩ := map_ok_iff.1 (Option.some.inj h)
      obtain ⟨-, rfl⟩ := Prod.mk.inj hv
      exact numberAt_shorter hn
    · cases h
  · cases h

/-- The fault of a text, blanks skipped, whose value is not of the kind wanted. -/
def mismatch (wanted : Wanted) (s : List Char) : Fault :=
  match s with
  | [] => .next .endInValue []
  | '[' :: _ => .here (.wrongType .sequence wanted) s
  | '\x7b' :: _ => .here (.wrongType .map wanted) s
  | _ =>
    match scalar? s with
    | none => .next .expectedValue s
    | some (.error fault) => fault
    | some (.ok (v, rest)) => .here (.wrongType (.scalar v) wanted) rest

/-- A scalar that is accepted: `accept` gives what it means, a complaint about it, or nothing if
it is not of the kind wanted. -/
def runScalar (wanted : Wanted) (accept : Scalar → Option (Except Cause α)) (s : List Char) :
    Except Fault (α × List Char) :=
  match scalar? (skipBlanks s) with
  | some (.ok (v, rest)) =>
    match accept v with
    | some (.ok a) => .ok (a, rest)
    | some (.error cause) => .error (.here cause rest)
    | none => .error (mismatch wanted (skipBlanks s))
  | _ => .error (mismatch wanted (skipBlanks s))

namespace Reader

/-- The reader of the scalars that are accepted. -/
def scalar (wanted : Wanted) (accept : Scalar → Option (Except Cause α)) : Reader α where
  run := runScalar wanted accept
  shorter {s a rest} h := by
    unfold runScalar at h
    split at h
    · next hs =>
      have hlt := Nat.lt_of_lt_of_le (scalar?_shorter hs) (length_skipBlanks_le s)
      split at h
      · exact (Prod.mk.inj (Except.ok.inj h)).2 ▸ hlt
      · cases h
      · cases h
    · cases h

/-- A natural number of a width. -/
def natural (width : Width) : Reader Nat :=
  scalar (.integer width) fun
    | .number (.natural n) =>
      some (if n.toNat ≤ width.greatest then .ok n.toNat
        else .error (.wrongValue (.natural n) (.integer width)))
    | .number (.negative n) => some (.error (.wrongValue (.negative n) (.integer width)))
    | _ => none

/-- A natural number of 64 bits. -/
def word64 : Reader UInt64 := (natural .word64).map UInt64.ofNat

/-- A natural number of 32 bits. -/
def word32 : Reader UInt32 := (natural .word32).map UInt32.ofNat

/-- A count. -/
def count : Reader Nat := natural .count

/-- A string. -/
def string : Reader String :=
  scalar .string fun
    | .string s => some (.ok s)
    | _ => none

/-- A truth value. -/
def boolean : Reader Bool :=
  scalar .boolean fun
    | .bool b => some (.ok b)
    | _ => none

/-- Either null or a value; what begins with the letter `n` has to be null. -/
def nullable (r : Reader α) : Reader (Option α) where
  run s := match skipBlanks s with
    | 'n' :: rest => (keyword ['u', 'l', 'l'] rest).map (none, ·)
    | t => (r.run t).map fun p => (some p.1, p.2)
  shorter {s a rest} h := by
    split at h
    · next hs =>
      obtain ⟨_, hk, hv⟩ := map_ok_iff.1 h
      obtain ⟨-, rfl⟩ := Prod.mk.inj hv
      exact Nat.lt_of_le_of_lt (length_keyword_le hk) (length_lt_of_skipBlanks hs)
    · obtain ⟨⟨_, _⟩, hr, hv⟩ := map_ok_iff.1 h
      obtain ⟨-, rfl⟩ := Prod.mk.inj hv
      exact Nat.lt_of_lt_of_le (r.shorter hr) (length_skipBlanks_le s)

end Reader

end CodeMap.Json
