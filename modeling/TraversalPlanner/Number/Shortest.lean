import TraversalPlanner.Number.Binary64

/-! The fewest decimal digits that still read back as a given double. A double stands for an interval
of reals; for one digit, two digits and so on the two neighbours of the double on that decimal grid are
tried, and the first grid with a neighbour inside the interval gives the digits. -/

namespace TraversalPlanner.Number

/-- `digits * 10 ^ exponent`. -/
structure Decimal where
  digits : Nat
  exponent : Int
deriving DecidableEq

/-- Which of two equally near neighbours is taken. -/
inductive Tie where
  | even
  | up

def digitCount (n : Nat) : Nat := (Nat.toDigits 10 n).length

/-- The place `p` with `10 ^ (p - 1) ≤ top / bottom < 10 ^ p`. -/
def leadingPlace (top bottom : Nat) : Int :=
  if bottom ≤ top then digitCount (top / bottom)
  else 1 - digitCount ((bottom - 1) / top)

/-- The reals that round to `significand * 2 ^ exponent`, in quarters of a unit in the last place. The
ends belong to the interval when the significand is even, and the lower half is only half as wide below
a power of two. -/
structure Interval where
  low : Nat
  value : Nat
  high : Nat
  closed : Bool

def Interval.around (x : Binary64) : Interval :=
  let m := x.significand
  let narrow := m = twoTo 52 ∧ -1074 < x.exponent
  { low := 4 * m - (if narrow then 1 else 2), value := 4 * m, high := 4 * m + 2, closed := m % 2 = 0 }

/-- The point `n * step` of a grid, where `unit` is the quarter unit and `step` the grid's step, both as
whole multiples of a common measure. -/
def Interval.holds (interval : Interval) (unit step n : Nat) : Bool :=
  if interval.closed then interval.low * unit ≤ n * step && n * step ≤ interval.high * unit
  else interval.low * unit < n * step && n * step < interval.high * unit

/-- The grid point nearest to the interval's value, if a neighbour of the value lies in the interval. -/
def Interval.nearestOn (interval : Interval) (tie : Tie) (unit step : Nat) : Option Nat :=
  let target := interval.value * unit
  let below := target / step
  let above := below + 1
  let gapBelow := target - below * step
  let gapAbove := above * step - target
  match interval.holds unit step below, interval.holds unit step above with
  | true, false => some below
  | false, true => some above
  | false, false => none
  | true, true =>
    if gapBelow < gapAbove then some below
    else if gapAbove < gapBelow then some above
    else match tie with
      | .even => some (below + below % 2)
      | .up => some above

def Decimal.stripZeros : Nat → Decimal → Decimal
  | 0, decimal => decimal
  | fuel + 1, decimal =>
    if decimal.digits ≠ 0 ∧ decimal.digits % 10 = 0 then
      stripZeros fuel { digits := decimal.digits / 10, exponent := decimal.exponent + 1 }
    else decimal

/-- The shortest decimal for a finite double other than zero. Seventeen digits always suffice. -/
def shortest (tie : Tie) (x : Binary64) : Decimal :=
  let interval := Interval.around x
  let place := leadingPlace x.quotient.1 x.quotient.2
  let quarter := x.exponent - 2
  let attempt (count : Nat) : Option Decimal :=
    let grid : Int := place - count
    let unit := twoTo quarter.toNat * tenTo (-grid).toNat
    let step := twoTo (-quarter).toNat * tenTo grid.toNat
    (interval.nearestOn tie unit step).map fun n => Decimal.stripZeros 18 { digits := n, exponent := grid }
  ((List.range 17).findSome? fun k => attempt (k + 1)).getD { digits := 0, exponent := 0 }

end TraversalPlanner.Number
