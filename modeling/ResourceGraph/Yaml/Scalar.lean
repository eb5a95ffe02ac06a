import ResourceGraph.Number.Reading

/-!
# Plain scalars as values

What a plain scalar without a tag stands for: null, a truth value, an integer, a floating point
number, or its own text. Integers are decimal, or in base 16, 8 or 2 after `0x`, `0o` or `0b`. A
number with leading zeros is text.
-/

set_option autoImplicit false

namespace ResourceGraph.Yaml

/-- What a plain scalar stands for. -/
inductive Scalar where
  | null
  | bool (b : Bool)
  | int (i : Int)
  /-- An integer outside the 64-bit ranges. -/
  | wide (i : Int)
  | float (x : Number)
  | text
  deriving DecidableEq, Repr

namespace Scalar

/-- Whether a text is a word for null. -/
def isNullWord (cs : List Char) : Bool :=
  cs == ['~'] || cs == ['n', 'u', 'l', 'l'] || cs == ['N', 'u', 'l', 'l'] ||
    cs == ['N', 'U', 'L', 'L']

/-- The truth value that a text is a word for. -/
def bool? (cs : List Char) : Option Bool :=
  if cs == ['t', 'r', 'u', 'e'] || cs == ['T', 'r', 'u', 'e'] || cs == ['T', 'R', 'U', 'E'] then
    some true
  else if cs == ['f', 'a', 'l', 's', 'e'] || cs == ['F', 'a', 'l', 's', 'e'] ||
      cs == ['F', 'A', 'L', 'S', 'E'] then
    some false
  else none

/-- Whether a text is a decimal integer with leading zeros. -/
def hasLeadingZeros (cs : List Char) : Bool :=
  match (Number.splitSign cs).2 with
  | '0' :: c :: rest => (c :: rest).all Char.isDigit
  | _ => false

/-- Whether a text begins with a sign. -/
def isSigned : List Char → Bool
  | '+' :: _ => true
  | '-' :: _ => true
  | _ => false

/-- The integer after a base marker; a further sign is not admitted. -/
def inBase? : List Char → Option Nat
  | '0' :: 'x' :: cs => Number.digits? 16 cs
  | '0' :: 'o' :: cs => Number.digits? 8 cs
  | '0' :: 'b' :: cs => Number.digits? 2 cs
  | _ => none

/-- The value of an integer without a minus sign, if it is at most the given one. -/
def natural? (most : Nat) (cs : List Char) : Option Nat :=
  let digits := match cs with
    | '+' :: rest => rest
    | _ => cs
  let value := match (inBase? digits).filter (· ≤ most) with
    | some n => some n
    | none =>
      if isSigned digits || hasLeadingZeros cs then none else Number.digits? 10 digits
  value.filter (· ≤ most)

/-- The size of an integer with a minus sign, if it is at most the given one. -/
def negative? (most : Nat) : List Char → Option Nat
  | '-' :: cs =>
    let value := match (inBase? cs).filter (· ≤ most) with
      | some n => some n
      | none =>
        if isSigned cs || hasLeadingZeros cs then none else Number.digits? 10 cs
    value.filter (· ≤ most)
  | _ => none

/-- The integer that a text writes, told apart by its range. -/
def integer? (cs : List Char) : Option Scalar :=
  match natural? (Number.twoTo 64 - 1) cs with
  | some n => some (int n)
  | none =>
    match negative? (Number.twoTo 63) cs with
    | some n => some (int (-(n : Int)))
    | none =>
      match natural? (Number.twoTo 128 - 1) cs with
      | some n => some (wide n)
      | none => (negative? (Number.twoTo 127) cs).map fun n => wide (-(n : Int))

/-- The floating point number that a text writes. -/
def float? (cs : List Char) : Option Number :=
  let unsigned := match cs with
    | '+' :: rest => rest
    | _ => cs
  if cs.head? == some '+' && isSigned unsigned then none
  else if unsigned == ".inf".toList || unsigned == ".Inf".toList || unsigned == ".INF".toList then
    some (.infinite false)
  else if cs == "-.inf".toList || cs == "-.Inf".toList || cs == "-.INF".toList then
    some (.infinite true)
  else if cs == ".nan".toList || cs == ".NaN".toList || cs == ".NAN".toList then some .nan
  else (Number.ofText? unsigned).filter Number.isFinite

/-- What a plain scalar stands for. -/
def ofPlain (cs : List Char) : Scalar :=
  if cs.isEmpty || isNullWord cs then null
  else match bool? cs with
    | some b => bool b
    | none =>
      match integer? cs with
      | some i => i
      | none =>
        if hasLeadingZeros cs then text
        else match float? cs with
          | some x => float x
          | none => text

end Scalar

end ResourceGraph.Yaml
