import StoreClient.Decimal
import StoreClient.Word

/-! # Spans of time

A `Duration` counts nanoseconds.  `ofParts?` and `add?` refuse whole seconds past a 64-bit word,
`cappedMillis` is the span in whole milliseconds as a word can show it, and `text` writes a span
in the largest unit that it fills, without trailing zeros. -/

namespace StoreClient

/-- A span of time in nanoseconds. -/
structure Duration where
  nanos : Nat
  deriving DecidableEq, Repr, Inhabited

namespace Duration

def nanosPerMilli : Nat := 1000000
def nanosPerSecond : Nat := 1000000000

def zero : Duration := ⟨0⟩

def ofMillis (m : Nat) : Duration := ⟨m * nanosPerMilli⟩

def ofSeconds (s : Nat) : Duration := ⟨s * nanosPerSecond⟩

def seconds (d : Duration) : Nat := d.nanos / nanosPerSecond

def subsecond (d : Duration) : Nat := d.nanos % nanosPerSecond

def wholeMillis (d : Duration) : Nat := d.nanos / nanosPerMilli

/-- Whole milliseconds, stopped at the largest word. -/
def cappedMillis (d : Duration) : Nat := min d.wholeMillis wordMax

/-- The span, if its whole seconds fit a word. -/
def checked (d : Duration) : Option Duration := if d.seconds ≤ wordMax then some d else none

/-- Seconds and nanoseconds together, unless their whole seconds pass a word. -/
def ofParts? (seconds nanos : Nat) : Option Duration :=
  checked ⟨seconds * nanosPerSecond + nanos⟩

/-- The sum, unless its whole seconds pass a word. -/
def add? (a b : Duration) : Option Duration := checked ⟨a.nanos + b.nanos⟩

/-- A count with `places` decimals, trailing zeros left out, and its unit. -/
def withUnit (whole fraction places : Nat) (unit : String) : String :=
  let shown := ((Decimal.padded places fraction).reverse.dropWhile (· = '0')).reverse
  let point := if shown.isEmpty then [] else '.' :: shown
  String.ofList (Decimal.digits whole ++ point) ++ unit

/-- The span in seconds, milliseconds, microseconds or nanoseconds, whichever it fills first. -/
def text (d : Duration) : String :=
  if nanosPerSecond ≤ d.nanos then withUnit d.seconds d.subsecond 9 "s"
  else if nanosPerMilli ≤ d.nanos then withUnit d.wholeMillis (d.nanos % nanosPerMilli) 6 "ms"
  else if 1000 ≤ d.nanos then withUnit (d.nanos / 1000) (d.nanos % 1000) 3 "µs"
  else withUnit d.nanos 0 0 "ns"

@[simp] theorem wholeMillis_ofMillis (m : Nat) : (ofMillis m).wholeMillis = m := by
  simp [wholeMillis, ofMillis, nanosPerMilli]

theorem seconds_le_wholeMillis (d : Duration) : d.seconds ≤ d.wholeMillis :=
  Nat.div_le_div_left (by decide) (by decide)

theorem cappedMillis_le (d : Duration) : d.cappedMillis ≤ wordMax := Nat.min_le_right ..

theorem cappedMillis_ofMillis {m : Nat} (h : m ≤ wordMax) : (ofMillis m).cappedMillis = m := by
  simp [cappedMillis, Nat.min_eq_left h]

end Duration
end StoreClient
