/-!
# Numbers

The numbers of a document are those of the IEEE 754 format binary64, held exactly: a sign, a
significand below 2^53 and a power of two. Each number has one form: the significand is at least
2^52 unless the exponent is the least one, -1074.

This module rounds an exact ratio to the nearest number, a tie going to the even significand, and
reads numbers from integers and from decimals.
-/

set_option autoImplicit false

namespace ResourceGraph

/-- A binary64 number; a finite one is `significand * 2 ^ exponent` with a sign. -/
inductive Number where
  | nan
  | infinite (negative : Bool)
  | finite (negative : Bool) (significand : Nat) (exponent : Int)
  deriving DecidableEq, Repr

namespace Number

/-- The least exponent. -/
def leastExponent : Int := -1074

/-- The greatest exponent. -/
def greatestExponent : Int := 971

/-- A power of two. -/
def twoTo (n : Nat) : Nat := Nat.pow 2 n

/-- A power of ten. -/
def tenTo (n : Nat) : Nat := Nat.pow 10 n

/-- Zero with a sign. -/
def zero (negative : Bool) : Number := finite negative 0 leastExponent

/-- The quotient of two naturals rounded to the nearest one, a tie to the even. -/
def roundDiv (num den : Nat) : Nat :=
  let q := num / den
  let r := num % den
  if 2 * r > den || (2 * r == den && q % 2 == 1) then q + 1 else q

/-- The ratio of two naturals in units of a power of two, as a numerator and a denominator. -/
def inUnits (num den : Nat) (exponent : Int) : Nat × Nat :=
  (num * twoTo (-exponent).toNat, den * twoTo exponent.toNat)

/-- The exponent at which a positive ratio has a 53-bit whole part, or the least exponent. -/
def exponentOf (num den : Nat) : Int :=
  let low : Int := (Nat.log2 num : Int) - Nat.log2 den - 53
  let (n, d) := inUnits num den low
  max (if n / d < twoTo 53 then low else low + 1) leastExponent

/-- The number nearest to a ratio. -/
def ofRatio (negative : Bool) (num den : Nat) : Number :=
  if num = 0 then zero negative
  else
    let e := exponentOf num den
    let (n, d) := inUnits num den e
    let m := roundDiv n d
    let (m, e) := if m = twoTo 53 then (twoTo 52, e + 1) else (m, e)
    if greatestExponent < e then infinite negative else finite negative m e

/-- The number nearest to an integer. -/
def ofInt (i : Int) : Number := ofRatio (i < 0) i.natAbs 1

/-- The number nearest to `digits * 10 ^ exponent`. Decimals far outside the range of finite numbers
are told by their size alone. -/
def ofDecimal (negative : Bool) (digits : Nat) (exponent : Int) : Number :=
  let size := exponent + (Nat.toDigits 10 digits).length
  if digits = 0 || size < -330 then zero negative
  else if size > 310 then infinite negative
  else ofRatio negative (digits * tenTo exponent.toNat) (tenTo (-exponent).toNat)

/-- Whether a number is neither infinite nor undefined. -/
def isFinite : Number → Bool
  | finite _ _ _ => true
  | _ => false

/-- Whether a number is zero, of either sign. -/
def isZero : Number → Bool
  | finite _ 0 _ => true
  | _ => false

/-- Equality as values: zeros are equal whatever their sign, and so are the undefined ones. -/
def sameValue (a b : Number) : Bool := a == b || (a.isZero && b.isZero)

/-- The integer that a number is, if it is one. -/
def toInt? : Number → Option Int
  | nan => none
  | infinite _ => none
  | finite negative m e =>
    let magnitude : Option Nat :=
      if 0 ≤ e then some (m * twoTo e.toNat)
      else if m % twoTo (-e).toNat = 0 then some (m / twoTo (-e).toNat)
      else none
    magnitude.map fun n => if negative then -(n : Int) else n

/-- The integer that a number is, if it is one below 2^53 in size. -/
def toSmallInt? (x : Number) : Option Int := x.toInt?.filter fun i => i.natAbs < twoTo 53

end Number

end ResourceGraph
