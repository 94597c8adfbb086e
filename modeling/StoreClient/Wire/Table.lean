import StoreClient.Binary64
import StoreClient.ByteSeq.Basic

/-! # Number encodings

Numbers travel as decimal text.  A `WireTable` has the integers `0..=bound` written once, one after
another in one text, and cuts a small number out of it; any other is written when it is asked for.
Scores are written so that each reads back as the same binary64 number. -/

namespace StoreClient

/-- The integers `0..=bound` in one text, with the position after each. -/
structure WireTable where
  digits : Bytes
  stops : Array Nat

namespace WireTable

/-- The largest bound of a table. -/
def maxBound : Nat := 65535

/-- The bound of a table that names none. -/
def standardBound : Nat := 1024

/-- The positions at which numbers of the given lengths end, put after those in `stops`. -/
def stopsAfter (stops : Array Nat) (lengths : List Nat) : Array Nat :=
  lengths.foldl (fun stops length => stops.push (stops.back?.getD 0 + length)) stops

/-- The table of `0..=bound`, or of `0..=maxBound` if that is less. -/
def ofBound (bound : Nat) : WireTable :=
  let numerals := (List.range (min bound maxBound + 1)).map Decimal.digits
  { digits := .ofAscii numerals.flatten, stops := stopsAfter #[] (numerals.map List.length) }

def standard : WireTable := ofBound standardBound

/-- The largest integer of the table. -/
def bound (t : WireTable) : Nat := t.stops.size - 1

/-- The text of an integer in the table, from the end of the one before it to its own end. -/
def cached? (t : WireTable) (n : Nat) : Option Bytes :=
  t.stops[n]?.map fun stop => t.digits.window (if n = 0 then 0 else t.stops.getD (n - 1) 0) stop

/-- The decimal text of an unsigned integer. -/
def unsigned (t : WireTable) (n : Nat) : ByteSeq :=
  .array ((t.cached? n).getD (.ofAscii (Decimal.digits n)))

/-- The decimal text of an integer. -/
def integer (t : WireTable) (z : Int) : ByteSeq :=
  if z < 0 then .array (.ofAscii (Decimal.ofInt z)) else t.unsigned z.natAbs

/-- The text of a score: a sign and `inf`, `-0`, an integer below `2 ^ 53`, or the shortest decimal
that reads back. -/
def score (t : WireTable) (x : Binary64) : Except Error ByteSeq :=
  if x.isNaN then .error .notANumber
  else if x.isInfinite then
    .ok (.array (.ofAscii ((if x.negative then '-' else '+') :: "inf".toList)))
  else if x.negative && x.steps == 0 then .ok (.array (.ofAscii "-0".toList))
  else match x.natAbs? with
    | some n => .ok (t.integer (if x.negative then -n else n))
    | none =>
      let text := x.shortest.positional
      .ok (.array (.ofAscii (if x.negative then '-' :: text else text)))

end WireTable
end StoreClient
