import Dataflow.Number.Double

/-! # The fewest digits that identify a double

Every double stands for an interval of reals, those that are nearest to it. The digits chosen for
it are the fewest that name a number of this interval, and among equally few the nearest.
-/

namespace Dataflow

structure Decimal where
  digits : Nat
  exponent : Int
  deriving DecidableEq, Repr

/-- Which of two equally near decimals is taken. -/
inductive Tie where
  | toEven
  | up
  deriving DecidableEq, Repr

namespace Double

/-- A grid of decimals together with the interval of a double, all in one unit: the grid points
    are the multiples of `step`, and `low`, `center` and `high` are the ends and the double. -/
structure Grid where
  step : Nat
  low : Nat
  center : Nat
  high : Nat
  /-- Whether the ends of the interval belong to it. -/
  closed : Bool

namespace Grid

/-- The grid of the multiples of `10 ^ exponent` around a double. The unit divides a quarter of the
    gap above the double; the gap below is half as wide where the significand is the smallest of
    its exponent. -/
def around (d : Double) (exponent : Int) : Grid :=
  let q := d.exponent - 2
  let unit := Nat.pow 2 q.toNat * Nat.pow 10 (-exponent).toNat
  let below := if d.significand = fractionSize ∧ 1 < d.exponentField then 1 else 2
  { step := Nat.pow 10 exponent.toNat * Nat.pow 2 (-q).toNat
    low := (4 * d.significand - below) * unit
    center := 4 * d.significand * unit
    high := (4 * d.significand + 2) * unit
    closed := d.significand % 2 == 0 }

/-- Whether the given multiple of the step lies in the interval. -/
def holds (g : Grid) (multiple : Nat) : Bool :=
  let point := multiple * g.step
  if g.closed then g.low ≤ point && point ≤ g.high else g.low < point && point < g.high

/-- The multiple of the step in the interval that is nearest to the double, if there is one. If
    there is any, one of the two neighbours of the double is one. -/
def nearest? (g : Grid) (tie : Tie) : Option Nat :=
  let floor := g.center / g.step
  match g.holds floor, g.holds (floor + 1) with
  | false, false => none
  | true, false => some floor
  | false, true => some (floor + 1)
  | true, true =>
    let rest := g.center % g.step
    if 2 * rest < g.step then some floor
    else if g.step < 2 * rest then some (floor + 1)
    else
      match tie with
      | .toEven => some (floor + floor % 2)
      | .up => some (floor + 1)

end Grid

/-- An exponent whose power of ten lies above the double, by at most three places: the binary
    logarithm is scaled by the decimal logarithm of two, here `30103 / 100000`. -/
def decimalMagnitude (d : Double) : Int :=
  (d.significand.log2 + d.exponent) * 30103 / 100000 + 2

/-- Tries coarser grids before finer ones. -/
def searchGrids (d : Double) (tie : Tie) : (count : Nat) → (exponent : Int) → Option Decimal
  | 0, _ => none
  | count + 1, exponent =>
    match (Grid.around d exponent).nearest? tie with
    | some digits => some ⟨digits, exponent⟩
    | none => searchGrids d tie count (exponent - 1)

/-- Moves the zeros at the end of the digits into the exponent. -/
def stripZeros : (count : Nat) → Decimal → Decimal
  | 0, d => d
  | count + 1, d =>
    if d.digits % 10 = 0 ∧ d.digits ≠ 0 then stripZeros count ⟨d.digits / 10, d.exponent + 1⟩
    else d

/-- The fewest digits to which the absolute value of the double is nearest, none for zero. Twenty
    grids from the top reach past the seventeenth digit, and seventeen digits always suffice; the
    exact value stands for a search without a hit. -/
def shortest (d : Double) (tie : Tie) : Decimal :=
  if d.magnitude = 0 then ⟨0, 0⟩
  else
    match d.searchGrids tie 20 d.decimalMagnitude with
    | some decimal => stripZeros 20 decimal
    | none =>
      let q := d.exponent
      ⟨d.significand * Nat.pow 2 q.toNat * Nat.pow 5 (-q).toNat, min q 0⟩

end Double

end Dataflow
