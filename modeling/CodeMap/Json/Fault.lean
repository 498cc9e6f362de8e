import CodeMap.Json.Printer
import CodeMap.Text.Quoted

/-! # Why a JSON text is refused

A refusal has a cause and, but for one case, a position. A reader knows how many bytes of the text
it has left, so a fault first carries that number; the line and the column are counted once, at
the end. A few faults concern an object or an array as a whole: they wait for the reader of the
enclosing brackets, which gives them the place where it stops.
-/

namespace CodeMap.Json

/-- The integers that a reader of numbers wants. -/
inductive Width where
  | word32
  | word64
  | count
deriving DecidableEq, Repr

namespace Width

/-- The greatest number wanted. -/
def greatest : Width → Nat
  | .word32 => 4294967295
  | .word64 | .count => 18446744073709551615

def text : Width → String
  | .word32 => "u32"
  | .word64 => "u64"
  | .count => "usize"

end Width

/-- What a reader wants. -/
inductive Wanted where
  | integer (width : Width)
  | string
  | boolean
  | sequence
  /-- A record, known by its title. -/
  | record (title : String)
deriving DecidableEq, Repr

def Wanted.text : Wanted → String
  | .integer width => width.text
  | .string => "a string"
  | .boolean => "a boolean"
  | .sequence => "a sequence"
  | .record title => "struct " ++ title

/-- A value that needs no brackets. -/
inductive Scalar where
  | null
  | bool (b : Bool)
  | number (n : Number)
  | string (s : String)
deriving DecidableEq, Repr

def Scalar.toJson : Scalar → Json
  | .null => .null
  | .bool b => .bool b
  | .number n => .number n
  | .string s => .string s

/-- What a reader finds instead. -/
inductive Found where
  | scalar (v : Scalar)
  | sequence
  | map
deriving DecidableEq, Repr

def Found.text : Found → String
  | .scalar .null => "null"
  | .scalar (.bool b) => "boolean `" ++ (if b then "true" else "false") ++ "`"
  | .scalar (.number (.real x)) => "floating point `" ++ String.ofList x.text ++ "`"
  | .scalar (.number n) => "integer `" ++ String.ofList n.render ++ "`"
  | .scalar (.string s) => "string " ++ Text.quoted s
  | .sequence => "sequence"
  | .map => "map"

/-- The reason for a refusal. -/
inductive Cause where
  | endInValue
  | endInString
  | endInList
  | endInObject
  | expectedValue
  | expectedIdent
  | expectedColon
  | expectedListCommaOrEnd
  | expectedObjectCommaOrEnd
  | keyMustBeString
  | trailingComma
  | trailingCharacters
  | tooDeep
  | controlCharacter
  | invalidEscape
  | loneSurrogate
  | unfinishedSurrogate
  | invalidNumber
  | numberOutOfRange
  | wrongType (found : Found) (wanted : Wanted)
  | wrongValue (number : Number) (wanted : Wanted)
  | missingField (key : String)
  | duplicateField (key : String)
  /-- An array with fewer elements than the record has fields. -/
  | tooShort (length : Nat) (wanted : Wanted) (fields : Nat)
  /-- A value that is none of the forms of a type. -/
  | noForm (type : String)
deriving DecidableEq, Repr

def Cause.text : Cause → String
  | .endInValue => "EOF while parsing a value"
  | .endInString => "EOF while parsing a string"
  | .endInList => "EOF while parsing a list"
  | .endInObject => "EOF while parsing an object"
  | .expectedValue => "expected value"
  | .expectedIdent => "expected ident"
  | .expectedColon => "expected `:`"
  | .expectedListCommaOrEnd => "expected `,` or `]`"
  | .expectedObjectCommaOrEnd => "expected `,` or `\x7d`"
  | .keyMustBeString => "key must be a string"
  | .trailingComma => "trailing comma"
  | .trailingCharacters => "trailing characters"
  | .tooDeep => "recursion limit exceeded"
  | .controlCharacter => "control character (\\u0000-\\u001F) found while parsing a string"
  | .invalidEscape => "invalid escape"
  | .loneSurrogate => "lone leading surrogate in hex escape"
  | .unfinishedSurrogate => "unexpected end of hex escape"
  | .invalidNumber => "invalid number"
  | .numberOutOfRange => "number out of range"
  | .wrongType found wanted => "invalid type: " ++ found.text ++ ", expected " ++ wanted.text
  | .wrongValue n wanted =>
    "invalid value: " ++ (Found.scalar (.number n)).text ++ ", expected " ++ wanted.text
  | .missingField key => "missing field `" ++ key ++ "`"
  | .duplicateField key => "duplicate field `" ++ key ++ "`"
  | .tooShort length wanted fields =>
    "invalid length " ++ toString length ++ ", expected " ++ wanted.text ++ " with " ++
      toString fields ++ " elements"
  | .noForm type => "data did not match any variant of untagged enum " ++ type

/-! ## Places -/

/-- Where a fault lies. -/
inductive Place where
  /-- Before the last so many bytes of the text. -/
  | bytesLeft (n : Nat)
  /-- The enclosing brackets give the place; the reader stands before this rest. -/
  | enclosing (rest : List Char)
deriving DecidableEq, Repr

/-- A cause with its place. -/
structure Fault where
  cause : Cause
  place : Place
deriving DecidableEq, Repr

/-- The length of a text in bytes. -/
def byteCount (cs : List Char) : Nat := cs.foldl (fun n c => n + c.utf8Size) 0

namespace Fault

/-- A fault where the rest begins. -/
def here (cause : Cause) (rest : List Char) : Fault := ⟨cause, .bytesLeft (byteCount rest)⟩

/-- A fault one byte into the rest, or where it begins if it is empty. -/
def next (cause : Cause) (rest : List Char) : Fault := ⟨cause, .bytesLeft (byteCount rest - 1)⟩

/-- A fault of the enclosing brackets as a whole. -/
def whole (cause : Cause) (rest : List Char) : Fault := ⟨cause, .enclosing rest⟩

end Fault

/-! ## Positions -/

/-- A line, counted from one, and the bytes of it before the position. -/
structure Position where
  line : Nat
  column : Nat
deriving DecidableEq, Repr

/-- The position after so many bytes of a text, counted on from a position. A line feed is one
byte, so a character that the position cuts is none. -/
def Position.advance (p : Position) : Nat → List Char → Position
  | _, [] => p
  | bytes, c :: rest =>
    if bytes < c.utf8Size then ⟨p.line, p.column + bytes⟩
    else if c = '\n' then advance ⟨p.line + 1, 0⟩ (bytes - 1) rest
    else advance ⟨p.line, p.column + c.utf8Size⟩ (bytes - c.utf8Size) rest

/-- A refusal of a text. -/
structure Refusal where
  cause : Cause
  position : Option Position
deriving DecidableEq, Repr

/-- The refusal that a fault means for a whole text. -/
def Fault.refusal (text : List Char) (f : Fault) : Refusal :=
  ⟨f.cause, match f.place with
    | .bytesLeft n => some (Position.advance ⟨1, 0⟩ (byteCount text - n) text)
    | .enclosing _ => none⟩

def Refusal.message (r : Refusal) : String :=
  match r.position with
  | some p =>
    r.cause.text ++ " at line " ++ toString p.line ++ " column " ++ toString p.column
  | none => r.cause.text

end CodeMap.Json
