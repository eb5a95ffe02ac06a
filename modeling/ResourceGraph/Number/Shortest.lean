import ResourceGraph.Number.Basic

/-!
# Shortest decimal digits

The fewest decimal digits that read back as a given number, and among those the ones nearest to it.

A decimal reads back as a number when it lies between the midpoints to the two neighbouring numbers;
a midpoint itself belongs to the number whose significand is even. The search goes from coarse
decimal grids to fine ones and tries the two grid points around the number on each. If any point of
a grid lies between the midpoints, one of those two does, so the first grid with a hit is the
coarsest.
-/

set_option autoImplicit false

namespace ResourceGraph.Number

/-- Which of two equally near decimals is taken. -/
inductive Tie where
  | toEven
  | upward
  deriving DecidableEq, Repr

/-- Decimal digits and the place of the point: `point` digits stand before it. -/
structure Decimal where
  digits : List Char
  point : Int
  deriving DecidableEq, Repr

/-- A grid of decimals beside a number. All quantities are scaled to whole numbers by one factor. -/
structure Grid where
  /-- The distance of two grid points. -/
  step : Nat
  /-- The number. -/
  value : Nat
  /-- The midpoint below the number. -/
  low : Nat
  /-- The midpoint above the number. -/
  high : Nat
  deriving Repr

namespace Grid

/-- The grid of the multiples of `10 ^ p` beside `m * 2 ^ e`. The gap below a power of two is half
the one above it. -/
def beside (m : Nat) (e p : Int) : Grid :=
  let unit := twoTo (e - 2).toNat * tenTo (-p).toNat
  let below := if m = twoTo 52 ∧ leastExponent < e then 1 else 2
  ⟨tenTo p.toNat * twoTo (2 - e).toNat, 4 * m * unit, (4 * m - below) * unit, (4 * m + 2) * unit⟩

/-- Whether a grid point reads back as the number; `closed` says that the midpoints do. -/
def holds (g : Grid) (closed : Bool) (k : Nat) : Bool :=
  let x := k * g.step
  (g.low < x && x < g.high) || (closed && (x == g.low || x == g.high))

/-- The nearer of the two grid points around the number. -/
def nearer (g : Grid) (tie : Tie) : Nat :=
  let k := g.value / g.step
  let down := g.value - k * g.step
  let up := (k + 1) * g.step - g.value
  if down < up then k
  else if up < down then k + 1
  else if tie = .toEven ∧ k % 2 = 0 then k
  else k + 1

/-- The nearest grid point that reads back as the number. -/
def hit? (g : Grid) (closed : Bool) (tie : Tie) : Option Nat :=
  let k := g.value / g.step
  match g.holds closed k, g.holds closed (k + 1) with
  | true, true => some (g.nearer tie)
  | true, false => some k
  | false, true => some (k + 1)
  | false, false => none

end Grid

/-- Searches the grids from `10 ^ p` down, at most `n` of them. -/
def searchGrids (tie : Tie) (m : Nat) (e : Int) : Nat → Int → Nat × Int
  | 0, p => (0, p)
  | n + 1, p =>
    match (Grid.beside m e p).hit? (m % 2 == 0) tie with
    | some k => (k, p)
    | none => searchGrids tie m e n (p - 1)

/-- The shortest digits of the positive number `m * 2 ^ e`. The first grid is coarser than the
number itself, and 17 digits always suffice. -/
def shortest (tie : Tie) (m : Nat) (e : Int) : Decimal :=
  let size : Int := (Nat.log2 m : Int) + 1 + e
  let (k, p) := searchGrids tie m e 24 (size * 30103 / 100000 + 1)
  let digits := Nat.toDigits 10 k
  ⟨digits, digits.length + p⟩

end ResourceGraph.Number
