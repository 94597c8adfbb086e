import StoreClient.Decimal

/-! # Shortest decimals

`Decimal.Interval` holds the numbers that round to one value, and `Decimal.Interval.shortest` is the
decimal of fewest digits among them: the search goes from a power of ten above the value down
through finer and finer grids, tests the value's two neighbours on each grid, and stops at the
first grid with a hit.  All arithmetic is exact. -/

namespace StoreClient.Decimal

/-- The number `units * 10 ^ place`. -/
structure Scaled where
  units : Nat
  place : Int
  deriving DecidableEq, Repr

/-- All digits of a scaled number, with a point before the fractional ones. -/
def Scaled.positional (d : Scaled) : List Char :=
  if 0 ≤ d.place then digits d.units ++ List.replicate d.place.toNat '0'
  else
    let places := (-d.place).toNat
    let shown := padded (places + 1) d.units
    shown.take (shown.length - places) ++ '.' :: shown.drop (shown.length - places)

/-- The numbers that round to the value `value / den`: those between `low / den` and `high / den`,
the ends too if `closed`. -/
structure Interval where
  low : Nat
  value : Nat
  high : Nat
  closed : Bool
  den : Nat

namespace Interval

/-- The units of `10 ^ place` in a number over `den`, as a numerator and a denominator. -/
def unitsOver (i : Interval) (place : Int) (n : Nat) : Nat × Nat :=
  (n * Nat.pow 10 (-place).toNat, i.den * Nat.pow 10 place.toNat)

/-- Whether `units * 10 ^ place` rounds to the value. -/
def contains (i : Interval) (d : Scaled) : Bool :=
  let (low, den) := i.unitsOver d.place i.low
  let (high, _) := i.unitsOver d.place i.high
  if i.closed then low ≤ d.units * den && d.units * den ≤ high
  else low < d.units * den && d.units * den < high

/-- The last grid point at or below the value. -/
def below (i : Interval) (place : Int) : Nat :=
  let (value, den) := i.unitsOver place i.value
  value / den

/-- Whether the grid point after `below` is at least as near to the value. -/
def nearerAbove (i : Interval) (place : Int) : Bool :=
  let (value, den) := i.unitsOver place i.value
  (2 * i.below place + 1) * den ≤ 2 * value

/-- The grid point that rounds to the value and is nearest to it; of two equally near the upper. -/
def hit? (i : Interval) (place : Int) : Option Scaled :=
  let down : Scaled := ⟨i.below place, place⟩
  let up : Scaled := ⟨i.below place + 1, place⟩
  match i.contains down, i.contains up with
  | true, true => some (if i.nearerAbove place then up else down)
  | true, false => some down
  | false, true => some up
  | false, false => none

/-- The hit on the first of `finer + 1` grids that has one, each ten times finer than the one
before, and the point below the value on the last grid if no other has. -/
def search (i : Interval) (place : Int) : (finer : Nat) → Scaled
  | 0 => ⟨i.below place, place⟩
  | finer + 1 =>
    match i.hit? place with
    | some d => d
    | none => i.search (place - 1) finer

/-- The least power of ten above the value. -/
def top (i : Interval) : Int :=
  if i.den ≤ i.value then (digits (i.value / i.den)).length
  else 1 - (digits ((i.den - 1) / i.value)).length

/-- The shortest decimal that rounds to the value, down to `10 ^ -places`, the grid on which the
value itself lies. -/
def shortest (i : Interval) (places : Nat) : Scaled :=
  i.search i.top (i.top + places).toNat

end Interval
end StoreClient.Decimal
