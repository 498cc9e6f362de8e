/-! # Blanks and lines

The blank characters are those with the Unicode property White_Space; section lists, settings and
the rows of a symbol dump all use this one class, and a text can be trimmed of it.

A text is cut into lines at its line feeds. A line that a line feed ends loses one carriage return
directly before it; a last line that none ends stays as it is, and an empty one is no line.
The rule is stated for any alphabet, since a dump is cut both as characters and as bytes.
-/

namespace CodeMap.Text

/-! ## Blanks -/

/-- The Unicode property White_Space: twenty-five characters, six of them ASCII. -/
def isBlank (c : Char) : Bool :=
  let n := c.toNat
  (0x09 ≤ n && n ≤ 0x0D) || n == 0x20 || n == 0x85 || n == 0xA0 || n == 0x1680 ||
    (0x2000 ≤ n && n ≤ 0x200A) || n == 0x2028 || n == 0x2029 || n == 0x202F || n == 0x205F ||
    n == 0x3000

/-- A text without its longest trailing run of characters in `p`. -/
def dropTrailing (p : Char → Bool) (cs : List Char) : List Char :=
  (cs.reverse.dropWhile p).reverse

@[simp] theorem dropTrailing_nil (p : Char → Bool) : dropTrailing p [] = [] := rfl

/-- A text without leading and trailing blanks. -/
def trim (cs : List Char) : List Char := dropTrailing isBlank (cs.dropWhile isBlank)

/-- The string holds nothing but blanks. -/
def allBlank (s : String) : Bool := s.toList.all isBlank

/-! ## Lines -/

variable {α : Type} [DecidableEq α]

/-- A piece without one final `mark`. -/
def dropOne (mark : α) (piece : List α) : List α :=
  if piece.getLast? = some mark then piece.dropLast else piece

/-- The lines among the pieces between line feeds: all but the last piece were ended by one. -/
def linesOfPieces (cr : α) : List (List α) → List (List α)
  | [] => []
  | [last] => if last = [] then [] else [last]
  | piece :: next :: more => dropOne cr piece :: linesOfPieces cr (next :: more)

/-- The lines of a text over an alphabet with the given line feed and carriage return. -/
def cutLines (lf cr : α) (text : List α) : List (List α) :=
  linesOfPieces cr (text.splitOn lf)

/-- The lines of a text. -/
def lines (text : List Char) : List String :=
  (cutLines '\n' '\r' text).map String.ofList

@[simp] theorem dropOne_concat (mark : α) (piece : List α) :
    dropOne mark (piece ++ [mark]) = piece := by simp [dropOne]

theorem dropOne_of_getLast?_ne {mark : α} {piece : List α} (h : piece.getLast? ≠ some mark) :
    dropOne mark piece = piece := if_neg h

end CodeMap.Text
