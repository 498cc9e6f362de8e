/-! # Finite binary64 numbers

A magnitude is `mantissa · 2 ^ exponent` with at most 53 bits of mantissa and an exponent from
-1074 to 971. Products and quotients are computed exactly in natural numbers and rounded once, to
the nearest magnitude, a half going to the even mantissa. What lies past the largest magnitude
has no value here.
-/

namespace CodeMap.Binary64

/-- A finite magnitude; a mantissa below 2 ^ 52 comes with the least exponent only. -/
structure Magnitude where
  mantissa : Nat
  exponent : Int
deriving DecidableEq, Repr

/-- The least exponent. -/
def leastExponent : Int := -1074

/-- The greatest exponent. -/
def greatestExponent : Int := 971

/-- `2 ^ 52`: from here on a mantissa has all its 53 bits. -/
def fullMantissa : Nat := 4503599627370496

namespace Magnitude

/-- The magnitude zero. -/
def zero : Magnitude := ⟨0, leastExponent⟩

instance : Inhabited Magnitude := ⟨zero⟩

end Magnitude

/-- The quotient rounded to the nearest natural number, a half to the even one. -/
def nearestEven (num den : Nat) : Nat :=
  let quotient := num / den
  let twice := 2 * (num % den)
  if twice < den then quotient
  else if den < twice then quotient + 1
  else quotient + quotient % 2

/-- `num / (den · 2 ^ exponent)` as a quotient of natural numbers. -/
def scaled (num den : Nat) (exponent : Int) : Nat × Nat :=
  if 0 ≤ exponent then (num, den * Nat.pow 2 exponent.toNat)
  else (num * Nat.pow 2 (-exponent).toNat, den)

/-- The exponent for a nonzero quotient: it leaves 53 bits before the point, or fewer at the
least exponent. -/
def exponentFor (num den : Nat) : Int :=
  let guess : Int := (num.log2 : Int) - (den.log2 : Int) - 53
  let low := if guess < leastExponent then leastExponent else guess
  let q := scaled num den low
  if 2 * fullMantissa ≤ q.1 / q.2 then low + 1 else low

/-- The magnitude nearest to a quotient, if it is finite. -/
def ofQuotient (num den : Nat) : Option Magnitude :=
  if num = 0 then some .zero
  else
    let exponent := exponentFor num den
    let q := scaled num den exponent
    let mantissa := nearestEven q.1 q.2
    let m : Magnitude :=
      if mantissa = 2 * fullMantissa then ⟨fullMantissa, exponent + 1⟩ else ⟨mantissa, exponent⟩
    if greatestExponent < m.exponent then none else some m

/-- The magnitude nearest to a natural number. -/
def ofNat (n : Nat) : Option Magnitude := ofQuotient n 1

/-- The magnitude nearest to a power of ten. -/
def powerOfTen (k : Nat) : Option Magnitude := ofNat (Nat.pow 10 k)

/-- `num · 2 ^ exponent / den`, rounded. -/
def ofScaled (num den : Nat) (exponent : Int) : Option Magnitude :=
  let q := scaled num den (-exponent)
  ofQuotient q.1 q.2

/-- The rounded product. -/
def mul (x y : Magnitude) : Option Magnitude :=
  ofScaled (x.mantissa * y.mantissa) 1 (x.exponent + y.exponent)

/-- The rounded quotient by a nonzero magnitude. -/
def div (x y : Magnitude) : Option Magnitude :=
  ofScaled x.mantissa y.mantissa (x.exponent - y.exponent)

/-- The magnitude scaled by a power of ten. One product or quotient covers 308 places; a longer
way down goes in steps of `10 ^ 308`, and a longer way up leaves the range unless the number is
zero. Every step rounds, so the result need not be the nearest magnitude. -/
def scaleByTen (x : Magnitude) (exponent : Int) : Option Magnitude :=
  if 0 ≤ exponent then
    if exponent ≤ 308 then (powerOfTen exponent.toNat).bind (mul x)
    else if x.mantissa = 0 then some x else none
  else if -308 ≤ exponent then (powerOfTen (-exponent).toNat).bind (div x)
  else if x.mantissa = 0 then some x
  else ((powerOfTen 308).bind (div x)).bind fun y => scaleByTen y (exponent + 308)
termination_by exponent.natAbs
decreasing_by omega

end CodeMap.Binary64

namespace CodeMap

/-- A finite binary64 number; zero has a sign too. -/
structure Binary64 where
  negative : Bool
  magnitude : Binary64.Magnitude
deriving DecidableEq, Repr, Inhabited

end CodeMap
