import StoreClient.Error

/-! # Id layouts

A `SnowflakeId` packs a tick, a worker id and a sequence number, most significant first, into at
most 63 bits.  An `IdLayout` says how wide each field is, how long a tick lasts and when the ticks
begin; no layout has a field without bits or bits past the 63.  Values are checked against their
field on every `encode`, and `decode` splits an id again. -/

namespace StoreClient

/-- A packed id; ids are ordered as numbers. -/
structure SnowflakeId where
  raw : UInt64
  deriving DecidableEq, Ord, Repr

namespace SnowflakeId

/-- The digits of the largest word. -/
def paddedLength : Nat := 20

def digits (id : SnowflakeId) : List Char := Decimal.digits id.raw.toNat

/-- Zero-padded digits, which sort like the ids. -/
def padded (id : SnowflakeId) : List Char := Decimal.padded paddedLength id.raw.toNat

/-- The digits, moved to the right end of a column. -/
def aligned (width : Nat) (id : SnowflakeId) : List Char :=
  List.replicate (width - id.digits.length) ' ' ++ id.digits

def debug (id : SnowflakeId) : String := "SnowflakeId(" ++ String.ofList id.digits ++ ")"

end SnowflakeId

/-- The fields of an id. -/
structure IdParts where
  /-- Ticks since the layout's epoch. -/
  timestamp : Nat
  workerId : Nat
  sequence : Nat
  deriving DecidableEq, Repr

/-- The length of a tick. -/
inductive TickUnit where
  | millis
  | seconds
  deriving DecidableEq, Repr

def TickUnit.millisPerTick : TickUnit → Nat
  | millis => 1
  | seconds => 1000

structure IdLayout where
  timestampBits : Nat
  workerBits : Nat
  sequenceBits : Nat
  unit : TickUnit
  /-- When tick 0 begins, counted from the Unix epoch. -/
  epoch : Duration
  timestampBits_pos : 0 < timestampBits
  workerBits_pos : 0 < workerBits
  sequenceBits_pos : 0 < sequenceBits
  bits_le : timestampBits + workerBits + sequenceBits ≤ 63
  deriving DecidableEq, Repr

namespace IdLayout

/-- The layout of three widths, if every field has a bit and the sum leaves the sign free. -/
def make (t w s : Nat) (unit : TickUnit) (epoch : Duration) : Except Error IdLayout :=
  if h0 : t = 0 ∨ w = 0 ∨ s = 0 then .error .emptyField
  else if h63 : 63 < t + w + s then .error (.tooWide (t + w + s))
  else .ok ⟨t, w, s, unit, epoch, by omega, by omega, by omega, by omega⟩

/-- Midnight of 1 January 2025. -/
def customEpoch : Duration := .ofMillis 1735689600000

/-- Midnight of 1 January 2000. -/
def y2kEpoch : Duration := .ofMillis 946684800000

def unixEpoch : Duration := .zero

/-- Milliseconds in 41 bits, 10 bits for the worker, 12 for the sequence. -/
def layout64 : IdLayout where
  timestampBits := 41
  workerBits := 10
  sequenceBits := 12
  unit := .millis
  epoch := customEpoch
  timestampBits_pos := by decide
  workerBits_pos := by decide
  sequenceBits_pos := by decide
  bits_le := by decide

/-- Seconds in 36 bits, 6 bits for the worker, 10 for the sequence: within the integers of a
double. -/
def layout52 : IdLayout where
  timestampBits := 36
  workerBits := 6
  sequenceBits := 10
  unit := .seconds
  epoch := customEpoch
  timestampBits_pos := by decide
  workerBits_pos := by decide
  sequenceBits_pos := by decide
  bits_le := by decide

/-- The layout of a generator that names none. -/
def standard : IdLayout := layout64

def withEpoch (l : IdLayout) (epoch : Duration) : IdLayout := { l with epoch := epoch }

/-- The width of a field. -/
def width (l : IdLayout) : Field → Nat
  | .timestamp => l.timestampBits
  | .workerId => l.workerBits
  | .sequence => l.sequenceBits

/-- How many values fit a field. -/
def capacity (l : IdLayout) (f : Field) : Nat := Nat.pow 2 (l.width f)

/-- The largest value of a field. -/
def max (l : IdLayout) (f : Field) : Nat := l.capacity f - 1

/-- All bits of an id. -/
def bits (l : IdLayout) : Nat := l.timestampBits + l.workerBits + l.sequenceBits

def check (l : IdLayout) (f : Field) (value : Nat) : Except Error Unit :=
  if value ≤ l.max f then .ok () else .error (.domain f value (l.max f))

/-- The number that the fields make up. -/
def pack (l : IdLayout) (p : IdParts) : Nat :=
  (p.timestamp * l.capacity .workerId + p.workerId) * l.capacity .sequence + p.sequence

/-- The id of three values; the first that does not fit its field is named. -/
def encode (l : IdLayout) (p : IdParts) : Except Error SnowflakeId := do
  l.check .timestamp p.timestamp
  l.check .workerId p.workerId
  l.check .sequence p.sequence
  return ⟨(l.pack p).toUInt64⟩

/-- The fields of an id; bits above the layout are left out. -/
def decode (l : IdLayout) (id : SnowflakeId) : IdParts where
  timestamp :=
    id.raw.toNat / (l.capacity .sequence * l.capacity .workerId) % l.capacity .timestamp
  workerId := id.raw.toNat / l.capacity .sequence % l.capacity .workerId
  sequence := id.raw.toNat % l.capacity .sequence

/-! ### Ticks and clock readings -/

/-- The epoch in whole milliseconds, stopped at the largest word. -/
def epochMillis (l : IdLayout) : Nat := l.epoch.cappedMillis

/-- The beginning of the tick in which an id was issued, counted from the Unix epoch. -/
def timestampOf (l : IdLayout) (id : SnowflakeId) : Outcome Duration :=
  let millis := (l.decode id).timestamp * l.unit.millisPerTick
  if wordMax < millis then .error (.panic .arithmetic)
  else match l.epoch.add? (.ofMillis millis) with
    | some d => .ok d
    | none => .error (.panic .arithmetic)

/-- The tick of a clock reading in milliseconds since the Unix epoch. -/
def tickOf (l : IdLayout) (now : UInt64) : Except Error Nat :=
  if now.toNat < l.epochMillis then
    .error (.domain .timestamp ((now.toNat : Int) - l.epochMillis) (l.max .timestamp))
  else
    let tick := (now.toNat - l.epochMillis) / l.unit.millisPerTick
    match l.check .timestamp tick with
    | .ok () => .ok tick
    | .error e => .error e

/-- How long it takes from a clock reading until a tick begins, a millisecond at least. -/
def waitFor (l : IdLayout) (tick : Nat) (now : UInt64) : Outcome Duration :=
  let start := l.epochMillis + tick * l.unit.millisPerTick
  if wordMax < start then .error (.panic .arithmetic)
  else .ok (.ofMillis (Nat.max (start - now.toNat) 1))

theorem capacity_pos (l : IdLayout) (f : Field) : 0 < l.capacity f :=
  Nat.pow_pos (by decide)

theorem max_add_one (l : IdLayout) (f : Field) : l.max f + 1 = l.capacity f :=
  Nat.sub_add_cancel (l.capacity_pos f)

theorem bits_le_63 (l : IdLayout) : l.bits ≤ 63 := l.bits_le

end IdLayout
end StoreClient
