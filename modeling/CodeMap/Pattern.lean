import CodeMap.Pattern.Brackets
import CodeMap.Text.Alphanumeric

/-! # Patterns

A pattern describes texts: its elements stand one after another, bars separate what may stand in
the same place, and groups, sets and repetitions are built from them. Only whether a text is a
pattern is decided here, not what the pattern describes. Patterns are found within braces and hold
no closing brace, so what needs one, such as a repetition with bounds, is never complete in them.
A pattern is read in one pass with the groups that are open, and may not be too high.
-/

namespace CodeMap.Pattern

/-- Elements that stand one after another. -/
structure Sequence where
  length : Nat
  /-- The height of the highest element. -/
  height : Nat
  /-- The height of the last element, if there is one and it can be repeated. -/
  last : Option Nat
deriving DecidableEq, Repr

namespace Sequence

/-- No elements. -/
def empty : Sequence := ⟨0, 0, none⟩

/-- The elements and one more. -/
def add (s : Sequence) (height : Nat) : Sequence :=
  ⟨s.length + 1, max s.height height, some height⟩

/-- The elements and a change of the flags, which cannot be repeated. -/
def addFlags (s : Sequence) : Sequence := ⟨s.length + 1, s.height, none⟩

/-- The elements with a repetition of the last one. -/
def repeatLast? (s : Sequence) : Option Sequence :=
  s.last.map fun height => ⟨s.length, max s.height (height + 1), some (height + 1)⟩

/-- The height of all elements together. -/
def total (s : Sequence) : Nat := if s.length ≤ 1 then s.height else s.height + 1

end Sequence

/-- A group that is open, or the pattern as a whole. -/
structure OpenGroup where
  flags : Flags
  /-- The height of the highest branch before the last bar. -/
  branches : Option Nat
  current : Sequence
deriving DecidableEq, Repr

namespace OpenGroup

/-- A group of which nothing has been read. -/
def start (flags : Flags) : OpenGroup := ⟨flags, none, .empty⟩

/-- The group with other flags for the rest of it. -/
def setFlags (g : OpenGroup) (flags : Flags) : OpenGroup :=
  { g with flags, current := g.current.addFlags }

/-- The group with one more element. -/
def add (g : OpenGroup) (height : Nat) : OpenGroup := { g with current := g.current.add height }

/-- The group after a bar. -/
def bar (g : OpenGroup) : OpenGroup :=
  { g with
    branches := some (max (g.branches.getD 0) g.current.total)
    current := .empty }

/-- The height of what the group holds. -/
def height (g : OpenGroup) : Nat :=
  match g.branches with
  | none => g.current.total
  | some branches => above branches g.current.total

end OpenGroup

/-- A pattern that is being read. -/
structure Reading where
  group : OpenGroup
  /-- The groups around it, innermost first. -/
  around : List OpenGroup
  /-- The names of groups so far. -/
  names : List (List Char)
deriving DecidableEq, Repr

/-- The text is a name for a group. -/
def isGroupName : List Char → Bool
  | [] => false
  | c :: rest =>
    (c == '_' || Text.isAlphabetic c) &&
      rest.all fun c => ['_', '.', '[', ']'].contains c || Text.isAlphanumeric c

namespace Reading

/-- A pattern of which nothing has been read. -/
def start : Reading := ⟨.start .standard, [], []⟩

/-- One more element, and what follows it. -/
def add (r : Reading) (height : Nat) : Reading := { r with group := r.group.add height }

/-- A group opens. -/
def openGroup (r : Reading) (flags : Flags) : Reading :=
  { r with group := .start flags, around := r.group :: r.around }

/-- A group with a name opens; the text begins with the name. -/
def openNamed? (r : Reading) (text : List Char) : Option (Reading × List Char) :=
  let name := text.takeWhile (· != '>')
  match text.drop name.length with
  | _ :: rest =>
    if isGroupName name && !r.names.contains name then
      some ({ r with names := name :: r.names }.openGroup r.group.flags, rest)
    else none
  | [] => none

/-- The flags change, for a group that opens or for the rest of the one that is open. -/
def changeFlags? (r : Reading) (text : List Char) : Option (Reading × List Char) :=
  let letters := text.takeWhile fun c => c != ':' && c != ')'
  match r.group.flags.change? letters, text.drop letters.length with
  | some flags, ':' :: rest => some (r.openGroup flags, rest)
  | some flags, _ :: rest =>
    if letters = [] then none
    else some ({ r with group := r.group.setFlags flags }, rest)
  | _, _ => none

/-- Reads on after the bracket of a group. -/
def enter? (r : Reading) (text : List Char) : Option (Reading × List Char) :=
  match r.group.flags.skip text with
  | '?' :: 'P' :: '<' :: rest | '?' :: '<' :: rest => r.openNamed? rest
  | '?' :: rest => r.changeFlags? rest
  | rest => some (r.openGroup r.group.flags, rest)

/-- The group that is open ends, and is an element of the one around it. -/
def leave? (r : Reading) : Option Reading :=
  match r.around with
  | [] => none
  | outer :: around => some { r with group := outer.add (r.group.height + 1), around }

/-- Reads an element, a bar or a bracket that begins with a character. -/
def step? (r : Reading) (c : Char) (rest : List Char) : Option (Reading × List Char) :=
  match c with
  | '(' => r.enter? rest
  | ')' => r.leave?.map (·, rest)
  | '|' => some ({ r with group := r.group.bar }, rest)
  | '[' => (set? r.group.flags rest).map fun (height, rest) => (r.add height, rest)
  | '?' | '*' | '+' =>
    r.group.current.repeatLast?.map fun current =>
      ({ r with group := { r.group with current } },
        if rest.head? = some '?' then rest.drop 1 else rest)
  | '\x7b' => none
  | '.' => if r.group.flags.unicode then some (r.add 0, rest) else none
  | '\\' => (escape? r.group.flags rest).map fun (_, rest) => (r.add 0, rest)
  | _ => some (r.add 0, rest)

/-- The height of the pattern that ends with a text, if it is well-formed. The number bounds how
many steps are left. -/
def finish? : Nat → Reading → List Char → Option Nat
  | 0, _, _ => none
  | bound + 1, r, text =>
    match r.group.flags.skip text with
    | [] => if r.around = [] then some r.group.height else none
    | c :: rest =>
      match r.step? c rest with
      | some (r, rest) => finish? bound r rest
      | none => none

end Reading

/-- How high a pattern may be. -/
def greatestHeight : Nat := 250

/-- The text is a pattern. Each step takes a character at least, but for the one that finds the
end. -/
def isWellFormed (text : List Char) : Bool :=
  (Reading.start.finish? (text.length + 1) text).any (· ≤ greatestHeight)

end CodeMap.Pattern
