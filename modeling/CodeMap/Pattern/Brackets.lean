import CodeMap.Pattern.Escape

/-! # Sets of characters in brackets

A set lists characters, ranges, names of classes and further sets, and operators may join such
lists. A hyphen is an operator if it is doubled, a character at the beginning or the end of a set,
and the middle of a range elsewhere. The reader keeps the sets that are open and learns the height
of the whole: how many brackets, lists and operators lie within each other.
-/

namespace CodeMap.Pattern

/-- Greater by one than the greater of two numbers. -/
def above (a b : Nat) : Nat := max a b + 1

/-- A set that is being read. -/
structure OpenSet where
  /-- Nothing but hyphens has been read. -/
  isNew : Bool
  /-- The height of what stands before the last operator. -/
  left : Option Nat
  /-- How many members stand next to each other after it. -/
  members : Nat
  /-- The height of the highest of them. -/
  height : Nat
deriving DecidableEq, Repr

namespace OpenSet

/-- A set of which nothing has been read. -/
def start : OpenSet := ⟨true, none, 0, 0⟩

/-- The set with a further member. -/
def add (s : OpenSet) (isNew : Bool) (height : Nat) : OpenSet :=
  { s with isNew, members := s.members + 1, height := max s.height height }

/-- The height of what the brackets hold. -/
def innerHeight (s : OpenSet) : Nat :=
  let list := if s.members ≤ 1 then s.height else s.height + 1
  match s.left with
  | none => list
  | some left => above left list

/-- The set after an operator. -/
def operator (s : OpenSet) : OpenSet := ⟨false, some s.innerHeight, 0, 0⟩

end OpenSet

/-- The beginning of a set, after its bracket. -/
def beginSet? (f : Flags) (text : List Char) : Option (List Char) :=
  match f.skip text with
  | '^' :: rest => if f.unicode then some rest else none
  | rest => some rest

/-- The names of classes. -/
def classNames : List String :=
  ["alnum", "alpha", "ascii", "blank", "cntrl", "digit", "graph", "lower", "print", "punct",
    "space", "upper", "word", "xdigit"]

/-- A class by its name between colons, after its bracket: whether it stands for all characters
but those, and what follows. -/
def namedClass? (text : List Char) : Option (Bool × List Char) :=
  match text with
  | ':' :: rest =>
    let (negated, rest) := match rest with
      | '^' :: rest => (true, rest)
      | rest => (false, rest)
    let name := rest.takeWhile (· != ':')
    match rest.drop name.length with
    | ':' :: ']' :: rest =>
      if classNames.contains (String.ofList name) then some (negated, rest) else none
    | _ => none
  | _ => none

/-- A member of a set that is no set itself, and what follows. -/
def member? (f : Flags) : List Char → Option (Atom × List Char)
  | [] => none
  | '\\' :: rest => escape? f rest
  | c :: rest => some (.character c, rest)

/-- The member may stand in a set. -/
def Atom.isMember (f : Flags) : Atom → Bool
  | .character c => f.unicode || c.toNat < 0x80
  | .someOf => true
  | .place => false

/-- The members are the ends of a range. -/
def isRange (f : Flags) : Atom → Atom → Bool
  | .character a, .character b => a ≤ b && (f.unicode || b.toNat < 0x80)
  | _, _ => false

/-- The character that a hyphen is looked at together with. Looking ahead takes the sign of a
comment for a blank, but not what the comment says. -/
def Flags.ahead? (f : Flags) (text : List Char) : Option Char :=
  if f.spaced then
    match text.dropWhile Text.isBlank with
    | '#' :: rest => (rest.dropWhile Text.isBlank).head?
    | rest => rest.head?
  else text.head?

/-- What follows a member or a range of members. -/
def range? (f : Flags) (text : List Char) : Option (List Char) :=
  match member? f text with
  | none => none
  | some (first, rest) =>
    let single := if first.isMember f then some (f.skip rest) else none
    match f.skip rest with
    | '-' :: after =>
      if (f.ahead? after).any fun c => c == ']' || c == '-' then single
      else
        match member? f (f.skip after) with
        | some (last, rest) => if isRange f first last then some rest else none
        | none => none
    | _ => single

/-- The height of the set whose inside is being read, and what follows it. The sets around it come
innermost first; the first number bounds how many members are left. -/
def finishSet? (f : Flags) :
    Nat → OpenSet → List OpenSet → List Char → Option (Nat × List Char)
  | 0, _, _, _ => none
  | bound + 1, s, around, text =>
    let text := f.skip text
    if s.isNew && text.head? == some '-' then
      finishSet? f bound (s.add true 0) around (text.drop 1)
    else if s.isNew && s.members == 0 && text.head? == some ']' then
      finishSet? f bound (s.add false 0) around (text.drop 1)
    else
      match text with
      | ']' :: rest =>
        match around with
        | [] => some (s.innerHeight + 1, rest)
        | outer :: around => finishSet? f bound (outer.add false (s.innerHeight + 1)) around rest
      | '&' :: '&' :: rest | '-' :: '-' :: rest | '~' :: '~' :: rest =>
        finishSet? f bound s.operator around rest
      | '[' :: rest =>
        match namedClass? rest with
        | some (negated, rest) =>
          if negated && !f.unicode then none else finishSet? f bound (s.add false 0) around rest
        | none =>
          match beginSet? f rest with
          | some rest => finishSet? f bound .start (s :: around) rest
          | none => none
      | text =>
        match range? f text with
        | some rest => finishSet? f bound (s.add false 0) around rest
        | none => none

/-- The height of a set, after its bracket, and what follows the set. Each round takes a character
at least, but for the one that finds the end. -/
def set? (f : Flags) (text : List Char) : Option (Nat × List Char) :=
  match beginSet? f text with
  | some rest => finishSet? f (rest.length + 1) .start [] rest
  | none => none

end CodeMap.Pattern
