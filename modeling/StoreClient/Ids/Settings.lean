import StoreClient.Ids.Layout
import StoreClient.JsonValue

/-! # Generator settings

`IdSettings` hold a layout, the drift that a clock may show and the longest wait.  They are written
as a JSON object with durations in whole milliseconds (`toJson`) and read back by `ofJson`:
settings that are missing take their defaults, unknown ones are left out, and a layout must be
complete and valid. -/

namespace StoreClient

structure IdSettings where
  layout : IdLayout
  /-- How far behind the latest reading the clock may fall. -/
  maxClockDrift : Duration := .ofMillis 10
  /-- How long a caller may wait for the clock. -/
  maxWait : Duration := .ofSeconds 5
  deriving DecidableEq, Repr

/-- Why a document is not read. -/
inductive ReadError where
  /-- A value is missing, of the wrong kind or out of range. -/
  | malformed
  /-- The values are read, and the layout refuses them. -/
  | refused (cause : Error)
  deriving DecidableEq, Repr

def TickUnit.key : TickUnit → String
  | millis => "millis"
  | seconds => "seconds"

namespace TickUnit

def ofKey : String → Except ReadError TickUnit
  | "millis" => .ok millis
  | "seconds" => .ok seconds
  | _ => .error .malformed

/-- A unit is named by a text, or by the only key of an object with a null. -/
def ofJson : JsonValue → Except ReadError TickUnit
  | .text s => ofKey s
  | .object [(s, .null)] => ofKey s
  | _ => .error .malformed

end TickUnit

namespace JsonValue

/-- Reads an integer up to `max`. -/
def readNat (max : Nat) (v : JsonValue) : Except ReadError Nat :=
  match v.natUpTo? max with
  | some n => .ok n
  | none => .error .malformed

/-- Reads a span in milliseconds. -/
def readMillis (v : JsonValue) : Except ReadError Duration :=
  (v.readNat wordMax).map Duration.ofMillis

/-- A field that must be there. -/
def required (fields : List (String × JsonValue)) (key : String) : Except ReadError JsonValue :=
  match fields.lookup key with
  | some v => .ok v
  | none => .error .malformed

end JsonValue

namespace IdLayout

/-- The largest bit width that is read. -/
def maxReadBits : Nat := 255

def ofFields (t w s unit epoch : JsonValue) : Except ReadError IdLayout := do
  let t ← t.readNat maxReadBits
  let w ← w.readNat maxReadBits
  let s ← s.readNat maxReadBits
  let unit ← TickUnit.ofJson unit
  let epoch ← epoch.readMillis
  match make t w s unit epoch with
  | .ok l => .ok l
  | .error e => .error (.refused e)

/-- Reads a layout from an object, or from the list of its values. -/
def ofJson : JsonValue → Except ReadError IdLayout
  | .object fields => do
    ofFields (← JsonValue.required fields "timestamp_bits")
      (← JsonValue.required fields "worker_bits") (← JsonValue.required fields "sequence_bits")
      (← JsonValue.required fields "unit") (← JsonValue.required fields "epoch_ms")
  | .list [t, w, s, unit, epoch] => ofFields t w s unit epoch
  | _ => .error .malformed

def toJson (l : IdLayout) : JsonValue :=
  .object [("timestamp_bits", .integer l.timestampBits), ("worker_bits", .integer l.workerBits),
    ("sequence_bits", .integer l.sequenceBits), ("unit", .text l.unit.key),
    ("epoch_ms", .integer l.epochMillis)]

end IdLayout

namespace IdSettings

/-- The settings of a layout alone. -/
def ofLayout (l : IdLayout) : IdSettings := { layout := l }

/-- The settings of a generator that says nothing else. -/
def standard : IdSettings := ofLayout .standard

def toJson (c : IdSettings) : JsonValue :=
  .object [("layout", c.layout.toJson),
    ("max_clock_drift_ms", .integer c.maxClockDrift.cappedMillis),
    ("max_wait_ms", .integer c.maxWait.cappedMillis)]

/-- Reads a value where there is one. -/
def readOr {α : Type} (standard : α) (read : JsonValue → Except ReadError α) :
    Option JsonValue → Except ReadError α
  | some v => read v
  | none => .ok standard

/-- Reads settings of which any may be missing. -/
def ofFields (layout drift wait : Option JsonValue) : Except ReadError IdSettings := do
  let layout ← readOr standard.layout IdLayout.ofJson layout
  let drift ← readOr standard.maxClockDrift JsonValue.readMillis drift
  let wait ← readOr standard.maxWait JsonValue.readMillis wait
  return ⟨layout, drift, wait⟩

/-- Reads settings from an object, or from a list of the first few values. -/
def ofJson : JsonValue → Except ReadError IdSettings
  | .object fields =>
    ofFields (fields.lookup "layout") (fields.lookup "max_clock_drift_ms")
      (fields.lookup "max_wait_ms")
  | .list values => do
    let c ← ofFields values[0]? values[1]? values[2]?
    if values.length ≤ 3 then return c else .error .malformed
  | _ => .error .malformed

end IdSettings

namespace SnowflakeId

def toJson (id : SnowflakeId) : JsonValue := .integer id.raw.toNat

def ofJson (v : JsonValue) : Except ReadError SnowflakeId :=
  (v.readNat wordMax).map fun n => ⟨n.toUInt64⟩

end SnowflakeId

end StoreClient
