import StoreClient.Decimal.Shortest

/-! # Binary64 numbers

A binary64 number is held as its bits: a sign, eleven exponent bits and fifty-two fraction bits.
The magnitude of a finite one is a whole number of steps of `2 ^ -1074`, and every real number
within half a gap of it rounds to it. -/

namespace StoreClient

/-- A floating-point number, as its bits. -/
structure Binary64 where
  bits : UInt64
  deriving DecidableEq, Repr

namespace Binary64

def negative (x : Binary64) : Bool := Nat.pow 2 63 ≤ x.bits.toNat

/-- The biased exponent. -/
def exponent (x : Binary64) : Nat := x.bits.toNat / Nat.pow 2 52 % Nat.pow 2 11

def fraction (x : Binary64) : Nat := x.bits.toNat % Nat.pow 2 52

def isNaN (x : Binary64) : Bool := x.exponent == 2047 && x.fraction != 0

def isInfinite (x : Binary64) : Bool := x.exponent == 2047 && x.fraction == 0

/-- The fraction with its leading bit, which the smallest exponent does not have. -/
def significand (x : Binary64) : Nat :=
  if x.exponent = 0 then x.fraction else Nat.pow 2 52 + x.fraction

/-- The gap to the next magnitude, in steps. -/
def gap (x : Binary64) : Nat := Nat.pow 2 (x.exponent - 1)

/-- The magnitude, in steps of `2 ^ -1074`. -/
def steps (x : Binary64) : Nat := x.significand * x.gap

/-- The magnitude of an integer below `2 ^ 53`. -/
def natAbs? (x : Binary64) : Option Nat :=
  let whole := x.steps / Nat.pow 2 1074
  if x.steps % Nat.pow 2 1074 = 0 ∧ whole < Nat.pow 2 53 then some whole else none

/-- The numbers that round to the magnitude, in quarter steps: up to half a gap away, half of that
below a significand of `2 ^ 52` whose lower neighbour is nearer, and the ends if the significand is
even. -/
def interval (x : Binary64) : Decimal.Interval where
  low := (4 * x.significand - if x.fraction = 0 ∧ 1 < x.exponent then 1 else 2) * x.gap
  value := 4 * x.steps
  high := (4 * x.significand + 2) * x.gap
  closed := x.significand % 2 == 0
  den := Nat.pow 2 1076

/-- The shortest decimal that rounds to the magnitude; the magnitude itself has at most 1074
places. -/
def shortest (x : Binary64) : Decimal.Scaled := x.interval.shortest 1074

end Binary64
end StoreClient
