import RowGraph.Binary64.Basic

/-!
# Binary64 — the fewest digits that read back

Every finite double is a whole number of units of some power of ten, and so are the two ends of
the interval of reals that round to it.  `Interval` holds the three at one scale.  A decimal with
few digits is a multiple of a large power of ten, so the search goes through the grids
`10 ^ j, 10 ^ (j - 1), …, 1` from the coarsest down and takes the first that has a point in the
interval.  The finest grid contains the number itself, so the search needs no other bound.

Of two points of one grid the nearer is taken; an exact tie goes as the caller's `Tie` directs.
-/

namespace RowGraph

/-- `digits · 10 ^ exponent`. -/
structure Decimal where
  digits : Nat
  exponent : Int
  deriving DecidableEq, Repr

/-- Which of two equally near decimals is taken. -/
inductive Tie where
  | even
  | up
  deriving DecidableEq, Repr

namespace Binary64

/-- A positive number and the ends of the interval that rounds to it, in units of
`10 ^ -scale`; `closed` when the ends round to the number as well. -/
structure Interval where
  value : Nat
  lower : Nat
  upper : Nat
  closed : Bool
  scale : Nat
  deriving DecidableEq, Repr

/-- The interval of a finite number other than zero, sign aside.

The ends lie halfway to the neighbours.  In quarters of the last place they are `4m - 2` (`4m - 1`
above a power of two) and `4m + 2`, and a quarter of `2 ^ q` is `5 ^ (2 - q)` units of
`10 ^ (q - 2)`. -/
def interval (x : Binary64) : Interval :=
  let m := x.significand
  let q := x.exponent - 2
  let unit := Nat.pow 2 q.toNat * Nat.pow 5 (-q).toNat
  { value := 4 * m * unit
    lower := (if x.narrowBelow then 4 * m - 1 else 4 * m - 2) * unit
    upper := (4 * m + 2) * unit
    closed := m % 2 == 0
    scale := (-q).toNat }

namespace Interval

/-- Does `n` units lie in the interval? -/
def holds (r : Interval) (n : Nat) : Bool :=
  if r.closed then r.lower ≤ n && n ≤ r.upper else r.lower < n && n < r.upper

/-- The point of the grid `10 ^ j` taken for the number, as a multiple of `10 ^ j`: of the grid's
two neighbours of the number one that the interval holds, the nearer if it holds both. -/
def point? (r : Interval) (tie : Tie) (j : Nat) : Option Nat :=
  let step := Nat.pow 10 j
  let below := r.value / step
  let above := below + 1
  match r.holds (below * step), r.holds (above * step) with
  | false, false => none
  | true, false => some below
  | false, true => some above
  | true, true =>
      match compare (2 * r.value) ((below + above) * step), tie with
      | .lt, _ => some below
      | .gt, _ => some above
      | .eq, .up => some above
      | .eq, .even => some (if below % 2 = 0 then below else above)

/-- The first grid point found on the way from `10 ^ j` down. -/
def search (r : Interval) (tie : Tie) : Nat → Decimal
  | 0 => ⟨r.value, -(r.scale : Int)⟩
  | j + 1 =>
      match r.point? tie (j + 1) with
      | some d => ⟨d, (j + 1 : Int) - r.scale⟩
      | none => r.search tie j

end Interval

/-- The decimal with the fewest digits among those that round to the number, sign aside; the
nearest of them, a tie as directed. -/
def shortest (x : Binary64) (tie : Tie) : Decimal :=
  if x.isZero then ⟨0, 0⟩
  else x.interval.search tie (Nat.toDigits 10 x.interval.value).length

end Binary64

end RowGraph
