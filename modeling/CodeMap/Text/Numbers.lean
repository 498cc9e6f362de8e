/-! # Numbers in texts

Dumps and escapes spell numbers in hexadecimal digits of either case, and messages show addresses in
lower case. Arguments and log filters hold decimal numbers: words of 64 bits in digits, with or
without a plus sign before them and zeros in front, and numbers with a point and an exponent.
-/

namespace CodeMap.Text

/-! ## Hexadecimal digits -/

/-- The value of a hexadecimal digit, of either case. -/
def hexDigit? (c : Char) : Option Nat :=
  if '0' ≤ c && c ≤ '9' then some (c.toNat - 48)
  else if 'a' ≤ c && c ≤ 'f' then some (c.toNat - 87)
  else if 'A' ≤ c && c ≤ 'F' then some (c.toNat - 55)
  else none

/-- The character is a hexadecimal digit. -/
def isHexDigit (c : Char) : Bool := (hexDigit? c).isSome

/-- The number that hexadecimal digits spell. -/
def hexNumber (digits : List Char) : Nat :=
  digits.foldl (fun n c => n * 16 + (hexDigit? c).getD 0) 0

/-- The digit for a number below 16. -/
def hexChar (upper : Bool) (n : Nat) : Char :=
  if upper then (Nat.digitChar n).toUpper else Nat.digitChar n

/-- The last digits of a number, with zeros in front. Which ones are in upper case is given from the
last one on. -/
def hexColumn (n : Nat) : List Bool → List Char
  | [] => []
  | upper :: rest => hexColumn (n / 16) rest ++ [hexChar upper (n % 16)]

/-- An address as messages show it. -/
def hexText (address : UInt64) : String :=
  String.ofList ('0' :: 'x' :: Nat.toDigits 16 address.toNat)

/-! ## Decimal numbers -/

/-- The word of 64 bits that a text spells. -/
def word64? (text : String) : Option UInt64 :=
  let digits := match text.toList with
    | '+' :: rest => rest
    | cs => cs
  let n := Nat.ofDigitChars 10 digits 0
  if digits != [] && digits.all Char.isDigit && n < 18446744073709551616 then
    some (UInt64.ofNat n)
  else none

/-- A text without the sign before it. -/
def dropSign : List Char → List Char
  | '+' :: rest | '-' :: rest => rest
  | cs => cs

/-- The text is an exponent, or nothing. -/
def isExponent : List Char → Bool
  | [] => true
  | c :: rest =>
    let digits := dropSign rest
    (c == 'e' || c == 'E') && digits != [] && digits.all Char.isDigit

/-- The text is a number: digits, at least one of them on a side of the point, and an exponent; or
the word for what is infinite or no number, in any case. A sign may stand before either. -/
def isNumber (text : List Char) : Bool :=
  let unsigned := dropSign text
  let whole := unsigned.takeWhile Char.isDigit
  let (fraction, rest) := match unsigned.drop whole.length with
    | '.' :: rest => (rest.takeWhile Char.isDigit, rest.dropWhile Char.isDigit)
    | rest => ([], rest)
  (whole ++ fraction != [] && isExponent rest) ||
    ["inf", "infinity", "nan"].contains (String.ofList (unsigned.map Char.toLower))

end CodeMap.Text
