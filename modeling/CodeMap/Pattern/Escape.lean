import CodeMap.Text.Lines
import CodeMap.Text.Numbers

/-! # Flags and escapes in a pattern

Letters in a pattern change how what follows them is read. Two of them decide what is well-formed:
whether characters are those of Unicode or of ASCII, and whether blanks and comments between the
elements are left out.

A backslash and what follows it stand for one character, for one of several characters, or for a
place between characters. A character may be given by its number, in as many hexadecimal digits
as the letter before them says. Where characters are those of ASCII, nothing may stand for others,
as what is found could then begin or end within a character. The ends of a word are found only
there: by the letters of Unicode they cannot be found in one pass.
-/

namespace CodeMap.Pattern

/-! ## Flags -/

/-- How a part of a pattern is read. -/
structure Flags where
  unicode : Bool
  spaced : Bool
deriving DecidableEq, Repr

namespace Flags

/-- How a pattern is read from its beginning. -/
def standard : Flags := ⟨true, false⟩

/-- A text without the blanks and comments before it. A comment ends with its line. -/
def dropSpace : Bool → List Char → List Char
  | _, [] => []
  | true, c :: rest => dropSpace (c != '\n') rest
  | false, c :: rest =>
    if Text.isBlank c then dropSpace false rest
    else if c = '#' then dropSpace true rest
    else c :: rest

/-- A text from its next element on. -/
def skip (f : Flags) (text : List Char) : List Char :=
  if f.spaced then dropSpace false text else text

/-- A flag after the letters for what is on and for what is off. -/
def switch (on off : List Char) (letter : Char) (value : Bool) : Bool :=
  on.contains letter || (value && !off.contains letter)

/-- The flags after a change of them: letters, each at most once, and those behind a minus sign are
turned off. -/
def change? (f : Flags) (letters : List Char) : Option Flags :=
  let on := letters.takeWhile (· != '-')
  let off := letters.drop on.length
  if letters.all (['i', 'm', 's', 'U', 'u', 'R', 'x', '-'].contains ·) &&
      letters.eraseDups == letters && off != ['-'] then
    some ⟨switch on off 'u' f.unicode, switch on off 'x' f.spaced⟩
  else none

end Flags

/-! ## Escapes -/

/-- What an element of a pattern stands for. -/
inductive Atom where
  | character (c : Char)
  /-- One of several characters. -/
  | someOf
  /-- A place between characters. -/
  | place
deriving DecidableEq, Repr

/-- The number that so many hexadecimal digits spell after those of a value. -/
def digits? (f : Flags) : Nat → Nat → List Char → Option (Nat × List Char)
  | 0, value, text => some (value, text)
  | count + 1, value, text =>
    match f.skip text with
    | [] => none
    | c :: rest =>
      match Text.hexDigit? c with
      | some d => digits? f count (value * 16 + d) rest
      | none => none

/-- The character with a number of so many digits. Two digits without Unicode are a byte. -/
def numbered? (f : Flags) (count : Nat) (text : List Char) : Option (Atom × List Char) :=
  match digits? f count 0 text with
  | some (n, rest) =>
    if n.isValidChar && (f.unicode || count != 2 || n < 0x80) then
      some (.character (Char.ofNat n), rest)
    else none
  | none => none

/-- One of the characters of a general category, by its letter. -/
def category? (f : Flags) (text : List Char) : Option (Atom × List Char) :=
  match f.skip text with
  | c :: rest =>
    if f.unicode && ['c', 'l', 'm', 'n', 'p', 's', 'z'].contains c.toLower then
      some (.someOf, rest)
    else none
  | [] => none

/-- What a backslash and the text after it stand for, and what follows. -/
def escape? (f : Flags) : List Char → Option (Atom × List Char)
  | [] => none
  | c :: rest =>
    match c with
    | 'x' => numbered? f 2 rest
    | 'u' => numbered? f 4 rest
    | 'U' => numbered? f 8 rest
    | 'p' | 'P' => category? f rest
    | 'd' | 's' | 'w' => some (.someOf, rest)
    | 'D' | 'S' | 'W' => if f.unicode then some (.someOf, rest) else none
    | 'A' | 'z' => some (.place, rest)
    | 'b' | 'B' | '<' | '>' => if f.unicode then none else some (.place, rest)
    | 'a' => some (.character '\x07', rest)
    | 't' => some (.character '\t', rest)
    | 'n' => some (.character '\n', rest)
    | 'v' => some (.character '\x0b', rest)
    | 'f' => some (.character '\x0c', rest)
    | 'r' => some (.character '\r', rest)
    | c => if c.toNat < 0x80 && !c.isAlphanum then some (.character c, rest) else none

end CodeMap.Pattern
