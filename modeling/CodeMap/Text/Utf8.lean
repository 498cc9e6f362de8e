/-! # UTF-8

One decoder reads a sequence of bytes from left to right. It emits a character, or a mark for a
part that begins no character; such a part is as long as it can be while some character still
begins with it, and the byte that ends it is read afresh. A text file must hold no mark; the
output of a dumper may, and each mark then stands for one replacement character.
-/

namespace CodeMap.Text

/-- A sequence of bytes: what a file holds and what a program prints. -/
abbrev Bytes := List UInt8

/-- A character begun: its value so far, the bytes it still lacks, the bounds of the next one. -/
structure Begun where
  value : Nat
  lacking : Nat
  low : UInt8
  high : UInt8
deriving DecidableEq, Repr

/-- The decoder between two bytes: the units emitted, latest first, and a character begun. -/
structure Decoder where
  emitted : List (Option Char)
  begun : Option Begun
deriving DecidableEq, Repr

namespace Decoder

/-- The decoder before the first byte. -/
def start : Decoder := ⟨[], none⟩

/-- Reads a byte where a character begins. A lead byte narrows the second byte so that neither
an overlong form nor a surrogate nor a value past the last code point is ever completed. -/
def lead (emitted : List (Option Char)) (b : UInt8) : Decoder :=
  if b < 0x80 then ⟨some (Char.ofNat b.toNat) :: emitted, none⟩
  else if b < 0xC2 then ⟨none :: emitted, none⟩
  else if b < 0xE0 then ⟨emitted, some ⟨b.toNat - 0xC0, 1, 0x80, 0xBF⟩⟩
  else if b < 0xF0 then
    ⟨emitted, some ⟨b.toNat - 0xE0, 2, if b = 0xE0 then 0xA0 else 0x80,
      if b = 0xED then 0x9F else 0xBF⟩⟩
  else if b < 0xF5 then
    ⟨emitted, some ⟨b.toNat - 0xF0, 3, if b = 0xF0 then 0x90 else 0x80,
      if b = 0xF4 then 0x8F else 0xBF⟩⟩
  else ⟨none :: emitted, none⟩

/-- Reads one byte. -/
def step (d : Decoder) (b : UInt8) : Decoder :=
  match d.begun with
  | none => lead d.emitted b
  | some p =>
    if p.low ≤ b && b ≤ p.high then
      let value := p.value * 64 + (b.toNat - 0x80)
      if p.lacking ≤ 1 then ⟨some (Char.ofNat value) :: d.emitted, none⟩
      else ⟨d.emitted, some ⟨value, p.lacking - 1, 0x80, 0xBF⟩⟩
    else lead (none :: d.emitted) b

/-- The units of the whole text; a character that is still lacking bytes is a mark. -/
def finish (d : Decoder) : List (Option Char) :=
  (match d.begun with
    | none => d.emitted
    | some _ => none :: d.emitted).reverse

end Decoder

/-- The units of a sequence of bytes: characters, and a mark for each part that begins none. -/
def decodeUnits (bytes : Bytes) : List (Option Char) :=
  (bytes.foldl Decoder.step Decoder.start).finish

/-- The text that the bytes encode, if they encode one. -/
def decode? (bytes : Bytes) : Option (List Char) := (decodeUnits bytes).mapM id

/-- The text of the bytes, with one replacement character for each undecodable part. -/
def decodeLossy (bytes : Bytes) : List Char :=
  (decodeUnits bytes).map (Option.getD · '\uFFFD')

/-- How many bytes encode a text. -/
def size (cs : List Char) : Nat := cs.foldl (fun n c => n + c.utf8Size) 0

/-- The bytes that encode a text. -/
def encode (s : String) : Bytes := s.toList.flatMap String.utf8EncodeChar

end CodeMap.Text
