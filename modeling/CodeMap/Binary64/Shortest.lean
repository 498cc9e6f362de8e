import CodeMap.Binary64.Basic

/-! # Shortest decimal form

The digits written for a magnitude are the fewest that read back as it, and of those the nearest
to it. The decimals that round to a magnitude form an interval around it; the ends belong to it
when the mantissa is even. For one digit, two digits and so on, the two neighbours of the
magnitude on the grid of such decimals are tested against the interval.
-/

namespace CodeMap.Binary64

/-- Digits `d₁ d₂ …` and the power of ten of the first one: `d₁.d₂… · 10 ^ exponent`. -/
structure Decimal where
  digits : List Char
  exponent : Int
deriving DecidableEq, Repr

/-- `a · 2 ^ p ≤ b · 10 ^ q`, or `<` if the ends are left out. -/
def below (closed : Bool) (a : Nat) (p : Int) (b : Nat) (q : Int) : Bool :=
  let left := a * Nat.pow 2 p.toNat * Nat.pow 10 (-q).toNat
  let right := b * Nat.pow 10 q.toNat * Nat.pow 2 (-p).toNat
  if closed then left ≤ right else left < right

/-- `b · 10 ^ q ≤ a · 2 ^ p`, or `<` if the ends are left out. -/
def above (closed : Bool) (a : Nat) (p : Int) (b : Nat) (q : Int) : Bool :=
  !below (!closed) a p b q

/-- The decimal `b · 10 ^ q` rounds to the magnitude. The gap below a power of two is half as
wide as the one above it. -/
def readsBack (m : Magnitude) (b : Nat) (q : Int) : Bool :=
  let closed := m.mantissa % 2 == 0
  let narrow := m.mantissa == fullMantissa && m.exponent != leastExponent
  let low := 4 * m.mantissa - (if narrow then 1 else 2)
  below closed low (m.exponent - 2) b q &&
    above closed (4 * m.mantissa + 2) (m.exponent - 2) b q

/-- The quotient `m / 10 ^ q` as natural numbers. -/
def onGrid (m : Magnitude) (q : Int) : Nat × Nat :=
  (m.mantissa * Nat.pow 2 m.exponent.toNat * Nat.pow 10 (-q).toNat,
    Nat.pow 10 q.toNat * Nat.pow 2 (-m.exponent).toNat)

/-- The power of ten of the first digit of a nonzero magnitude: the logarithm of two is near
0.30103, and the guess is then set right by comparing. -/
def leadingExponent (m : Magnitude) : Int :=
  let guess : Int := ((m.mantissa.log2 : Int) + m.exponent) * 30103 / 100000
  if above true m.mantissa m.exponent 1 (guess + 1) then guess + 1
  else if above true m.mantissa m.exponent 1 guess then guess
  else guess - 1

/-- The neighbour on the grid of multiples of `10 ^ q` that reads back, the nearer if both do,
and the even one if both are as near. -/
def neighbour? (m : Magnitude) (q : Int) : Option Nat :=
  let g := onGrid m q
  let lower := g.1 / g.2
  match readsBack m lower q, readsBack m (lower + 1) q with
  | true, true => some (nearestEven g.1 g.2)
  | true, false => some lower
  | false, true => some (lower + 1)
  | false, false => none

/-- The decimal `b · 10 ^ q` without trailing zeros. -/
def Decimal.ofGrid (b : Nat) (q : Int) : Decimal :=
  let digits := Nat.toDigits 10 b
  ⟨(digits.reverse.dropWhile (· == '0')).reverse, q + (digits.length : Int) - 1⟩

/-- The shortest decimal of a nonzero magnitude. Seventeen digits always suffice. -/
def shortest (m : Magnitude) : Decimal :=
  let lead := leadingExponent m
  let q (places : Nat) : Int := lead - (places : Int)
  let found := (List.range 17).findSome? fun places =>
    (neighbour? m (q places)).map fun b => Decimal.ofGrid b (q places)
  found.getD <|
    let g := onGrid m (q 16)
    Decimal.ofGrid (nearestEven g.1 g.2) (q 16)

/-! ## Layout -/

/-- The digits with a point after the first `whole` of them, padded so that at least one digit
stands on each side of the point. -/
def withPoint (digits : List Char) (whole : Nat) : List Char :=
  let padded := digits ++ List.replicate (whole - digits.length) '0'
  let fraction := padded.drop whole
  padded.take whole ++ '.' :: (if fraction = [] then ['0'] else fraction)

/-- A first digit of power -5 to 15 is written positionally, any other with an exponent. -/
def Decimal.layout (d : Decimal) : List Char :=
  if -5 ≤ d.exponent && d.exponent ≤ 15 then
    if d.exponent < 0 then
      '0' :: '.' :: List.replicate (-d.exponent - 1).toNat '0' ++ d.digits
    else withPoint d.digits (d.exponent.toNat + 1)
  else
    let mantissa := match d.digits with
      | first :: second :: more => first :: '.' :: second :: more
      | short => short
    let sign := if d.exponent < 0 then '-' else '+'
    mantissa ++ 'e' :: sign :: Nat.toDigits 10 d.exponent.natAbs

end CodeMap.Binary64

namespace CodeMap

/-- The text of a number: it always has a point or an exponent, so that it is not taken for an
integer. -/
def Binary64.text (x : Binary64) : List Char :=
  let sign := if x.negative then ['-'] else []
  sign ++ (if x.magnitude.mantissa = 0 then ['0', '.', '0']
    else (Binary64.shortest x.magnitude).layout)

end CodeMap
