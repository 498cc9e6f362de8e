import CodeMap.Json.Basic
import CodeMap.Binary64.Shortest

/-! # Written form of JSON

One printer serves two styles. The compact style has no blanks. The indented style gives every
element and every member a line of its own, two blanks deeper than the bracket around it, and a
blank after each colon. An empty array or object is closed at once in both.
-/

namespace CodeMap.Json

/-- How the parts of a text are set apart. -/
inductive Style where
  | compact
  | indented
deriving DecidableEq, Repr

namespace Style

/-- What stands before an element, a member or a closing bracket at a depth. -/
def lineBreak : Style → Nat → List Char
  | .compact, _ => []
  | .indented, depth => '\n' :: List.replicate (2 * depth) ' '

/-- What stands between a key and its value. -/
def colon : Style → List Char
  | .compact => [':']
  | .indented => [':', ' ']

end Style

/-- The spelling of a character inside a string. -/
def escapeChar (c : Char) : List Char :=
  match c with
  | '"' => ['\\', '"']
  | '\\' => ['\\', '\\']
  | '\x08' => ['\\', 'b']
  | '\x0c' => ['\\', 'f']
  | '\n' => ['\\', 'n']
  | '\r' => ['\\', 'r']
  | '\t' => ['\\', 't']
  | c =>
    if c.toNat < 0x20 then
      ['\\', 'u', '0', '0', Nat.digitChar (c.toNat / 16), Nat.digitChar (c.toNat % 16)]
    else [c]

/-- A string between double quotes. -/
def renderString (s : String) : List Char :=
  '"' :: s.toList.flatMap escapeChar ++ ['"']

/-- The digits of a number. -/
def Number.render : Number → List Char
  | .natural n => Nat.toDigits 10 n.toNat
  | .negative n => '-' :: Nat.toDigits 10 (n.val + 1)
  | .real x => x.text

mutual

/-- The text of a value whose opening line stands at a depth. -/
def render (style : Style) (depth : Nat) : Json → List Char
  | .null => ['n', 'u', 'l', 'l']
  | .bool true => ['t', 'r', 'u', 'e']
  | .bool false => ['f', 'a', 'l', 's', 'e']
  | .number n => n.render
  | .string s => renderString s
  | .array [] => ['[', ']']
  | .array (v :: rest) =>
    '[' :: style.lineBreak (depth + 1) ++ render style (depth + 1) v ++
      renderItems style (depth + 1) rest ++ style.lineBreak depth ++ [']']
  | .object [] => ['\x7b', '\x7d']
  | .object ((k, v) :: rest) =>
    '\x7b' :: style.lineBreak (depth + 1) ++ renderString k ++ style.colon ++
      render style (depth + 1) v ++ renderMembers style (depth + 1) rest ++
      style.lineBreak depth ++ ['\x7d']

/-- The elements after the first, each behind a comma. -/
def renderItems (style : Style) (depth : Nat) : List Json → List Char
  | [] => []
  | v :: rest => ',' :: style.lineBreak depth ++ render style depth v ++
      renderItems style depth rest

/-- The members after the first, each behind a comma. -/
def renderMembers (style : Style) (depth : Nat) : List (String × Json) → List Char
  | [] => []
  | (k, v) :: rest => ',' :: style.lineBreak depth ++ renderString k ++ style.colon ++
      render style depth v ++ renderMembers style depth rest

end

/-- The text of a value on one line. -/
def compact (v : Json) : String := String.ofList (v.render .compact 0)

/-- The text of a value over indented lines. -/
def pretty (v : Json) : String := String.ofList (v.render .indented 0)

end CodeMap.Json
