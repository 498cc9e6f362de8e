import CodeMap.Json.Reader.Bracket

/-! # Names

Functions and blocks are named by a number or by a string. The form is kept, so that a document
is written back as it was read; in labels and messages only the text of a name shows.
-/

namespace CodeMap

/-- The name of a function or a block. -/
inductive Name where
  | number (n : UInt64)
  | string (s : String)
deriving DecidableEq, Repr

namespace Name

/-- The text of a name. -/
def text : Name → String
  | .number n => n.toNat.repr
  | .string s => s

/-- The written form of a name. -/
def toJson : Name → Json
  | .number n => .natural n
  | .string s => .string s

/-- The name that a value is, if it is one. -/
def ofJson? : Json → Option Name
  | .number (.natural n) => some (.number n)
  | .string s => some (.string s)
  | _ => none

@[simp] theorem ofJson?_toJson (name : Name) : ofJson? name.toJson = some name := by
  cases name <;> rfl

/-- The reader of names: any value is read to its end before it is refused. -/
def reader (levels : Nat) : Json.Reader Name where
  run s := match (Json.Reader.value levels).run s with
    | .error fault => .error fault
    | .ok (v, rest) =>
      match ofJson? v with
      | some name => .ok (name, rest)
      | none => .error (.whole (.noForm "Name") rest)
  shorter {s name rest} h := by
    split at h
    · cases h
    · next hv =>
      split at h
      · exact (Prod.mk.inj (Except.ok.inj h)).2 ▸ (Json.Reader.value levels).shorter hv
      · cases h

/-- The name that a text holds. -/
def read (text : String) : Except Json.Refusal Name :=
  (reader Json.Reader.maxLevels).readAll text

end Name

/-! ## Labels -/

/-- The label of a block: `.LBB`, the function, an underscore, the block. Block 0 begins its
function, so its label is the function's too. -/
def blockLabel (function block : String) : String := ".LBB" ++ function ++ "_" ++ block

end CodeMap
