import ResourceGraph.Number.Basic

/-!
# Reading numbers

Decimal texts: an optional sign, digits with at most one point among them, and an optional power of
ten; or one of the words `inf`, `infinity` and `nan` in any case.
-/

set_option autoImplicit false

namespace ResourceGraph.Number

/-- The value of a digit in a base, if the character is one. -/
def digitValue? (base : Nat) (c : Char) : Option Nat :=
  let value :=
    if '0' ≤ c ∧ c ≤ '9' then some (c.toNat - '0'.toNat)
    else if 'a' ≤ c ∧ c ≤ 'z' then some (c.toNat - 'a'.toNat + 10)
    else if 'A' ≤ c ∧ c ≤ 'Z' then some (c.toNat - 'A'.toNat + 10)
    else none
  value.filter (· < base)

/-- The value of digits in a base, after digits of the given value. -/
def digitsFrom? (base : Nat) : Nat → List Char → Option Nat
  | value, [] => some value
  | value, c :: cs =>
    match digitValue? base c with
    | none => none
    | some d => digitsFrom? base (value * base + d) cs

/-- The value of a text of one or more digits in a base. -/
def digits? (base : Nat) (cs : List Char) : Option Nat :=
  if cs.isEmpty then none else digitsFrom? base 0 cs

/-- The sign at the start of a text, and the text after it. -/
def splitSign : List Char → Bool × List Char
  | '-' :: cs => (true, cs)
  | '+' :: cs => (false, cs)
  | cs => (false, cs)

/-- The power of ten written at the end of a decimal: none is the power zero. -/
def power? : List Char → Option Int
  | [] => some 0
  | c :: cs =>
    if c = 'e' || c = 'E' then
      let (negative, ds) := splitSign cs
      (digits? 10 ds).map fun n => if negative then -(n : Int) else n
    else none

/-- The digits of a decimal without a sign, as one natural, and the power of ten of the last one. -/
def decimal? (cs : List Char) : Option (Nat × Int) := do
  let whole := cs.takeWhile Char.isDigit
  let rest := cs.dropWhile Char.isDigit
  let (fraction, rest) := match rest with
    | '.' :: after => (after.takeWhile Char.isDigit, after.dropWhile Char.isDigit)
    | _ => ([], rest)
  let digits ← digits? 10 (whole ++ fraction)
  let power ← power? rest
  return (digits, power - fraction.length)

/-- The number that a text writes. -/
def ofText? (text : List Char) : Option Number :=
  let (negative, cs) := splitSign text
  match decimal? cs with
  | some (digits, power) => some (ofDecimal negative digits power)
  | none =>
    let word := cs.map Char.toLower
    if word = "inf".toList || word = "infinity".toList then some (infinite negative)
    else if word = "nan".toList then some nan
    else none

end ResourceGraph.Number
