import ResourceGraph.Number.Shortest

/-!
# The text of a number

A written form of numbers is a choice of spellings: where digits are laid out around a point and
where a power of ten is written, whether whole numbers keep `.0`, how a power shows its sign, and
the words for what is not finite. All forms write the shortest digits that read back.
-/

set_option autoImplicit false

namespace ResourceGraph.Number

/-- The spellings of a written form. -/
structure Spelling where
  /-- The digits around a tie. -/
  tie : Tie
  /-- The point places for which digits stand around a point: above the first and up to the second.
  Without bounds all do. -/
  positional : Option (Int × Int)
  /-- What follows the digits of a whole number. -/
  wholeTail : List Char
  /-- What stands before a power that is not negative. -/
  powerSign : List Char
  /-- The word for an undefined number. -/
  nan : List Char
  /-- The word for the positive infinite number. -/
  infinity : List Char
  /-- The word for the negative infinite number. -/
  negativeInfinity : List Char

namespace Spelling

/-- The text of a scalar: never a power of ten, and whole numbers without a point. -/
def scalar : Spelling where
  tie := .upward
  positional := none
  wholeTail := []
  powerSign := []
  nan := ['N', 'a', 'N']
  infinity := ['i', 'n', 'f']
  negativeInfinity := ['-', 'i', 'n', 'f']

/-- The number literals of JSON, where what is not finite is `null`. -/
def json : Spelling where
  tie := .toEven
  positional := some (-5, 16)
  wholeTail := ['.', '0']
  powerSign := ['+']
  nan := ['n', 'u', 'l', 'l']
  infinity := ['n', 'u', 'l', 'l']
  negativeInfinity := ['n', 'u', 'l', 'l']

/-- The floating point scalars of YAML. -/
def yaml : Spelling where
  tie := .toEven
  positional := some (-5, 16)
  wholeTail := ['.', '0']
  powerSign := []
  nan := ['.', 'n', 'a', 'n']
  infinity := ['.', 'i', 'n', 'f']
  negativeInfinity := ['-', '.', 'i', 'n', 'f']

end Spelling

/-- The decimal digits of an integer, after a minus sign if it is negative. -/
def intText (i : Int) : List Char :=
  if i < 0 then '-' :: Nat.toDigits 10 i.natAbs else Nat.toDigits 10 i.natAbs

/-- Digits laid out around a point. -/
def positionalText (wholeTail : List Char) (d : Decimal) : List Char :=
  let count : Int := d.digits.length
  if d.point ≤ 0 then '0' :: '.' :: List.replicate (-d.point).toNat '0' ++ d.digits
  else if count ≤ d.point then d.digits ++ List.replicate (d.point - count).toNat '0' ++ wholeTail
  else d.digits.take d.point.toNat ++ '.' :: d.digits.drop d.point.toNat

/-- One digit, the others after a point, and a power of ten. -/
def powerText (powerSign : List Char) (d : Decimal) : List Char :=
  let power := d.point - 1
  let head := match d.digits with
    | [] => []
    | [c] => [c]
    | c :: cs => c :: '.' :: cs
  head ++ 'e' :: (if power < 0 then [] else powerSign) ++ intText power

/-- The text of a decimal. -/
def decimalText (s : Spelling) (d : Decimal) : List Char :=
  match s.positional with
  | none => positionalText s.wholeTail d
  | some (low, high) =>
    if low < d.point && d.point ≤ high then positionalText s.wholeTail d
    else powerText s.powerSign d

/-- The text of a number. -/
def text (s : Spelling) : Number → List Char
  | nan => s.nan
  | infinite negative => if negative then s.negativeInfinity else s.infinity
  | finite negative m e =>
    let magnitude := if m = 0 then '0' :: s.wholeTail else decimalText s (shortest s.tie m e)
    if negative then '-' :: magnitude else magnitude

end ResourceGraph.Number
